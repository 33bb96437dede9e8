import TreeStream.Proofs.Effects
import TreeStream.Proofs.Likeness

/-!
# Two hosts side by side

Two hosts are twins if all that can be seen of them is the same: promises, queues, what requests
have given out and written, and the journal. What may differ is said by a `Twinning`: the users keep
states that belong together, models may be alike only, and warnings need not count. A segment that
is being tried is behind on one side while wrappers are taken off there.

An action leads on both sides from twins to twins, and to results that belong together: if it gives
a result in the first host, it gives one in the second, with any bound that is large enough.
-/

namespace TreeStream

variable {κ σ σ' α α' β β' : Type}

def Event.isWarning : Event → Bool
  | .warning _ _ => true
  | _ => false

/-- How two hosts may differ. With `wraps`, models may be in wrappers on either side; with `lax`,
the checks of requests may be strict on one side only; with `warned`, warnings count. Once an event
is told that spoils it, nothing is claimed any more. -/
structure Twinning (κ σ σ' : Type) where
  wraps : Bool
  lax : Bool
  warned : Bool
  /-- States of the two users, for the same promises. -/
  state : Array (PromiseCell κ) → σ → σ' → Prop
  spoils : Event → Prop
  inhabited : Nonempty σ'
  unwarned : warned = true → wraps = false ∧ lax = false
  /-- A nested pass may try a segment that is behind on one side. -/
  nested : wraps = true → ∀ r, spoils (.began r true)
  /-- A refusal may show a wrapper. -/
  refused : wraps = true → ∀ r id e, RenderError.IsRefusal κ e →
    spoils (.completed r (Row.ofError id e))

namespace Twinning

variable (T : Twinning κ σ σ')

def counts (e : Event) : Bool := T.warned || !e.isWarning

def told (log : List Event) : List Event := log.filter T.counts

end Twinning

/-- If models may be in wrappers, the query need not be the same while the segment is tried, nor
once it is completed. -/
structure Segment.Twin (wraps : Bool) (tried : Prop) (s s' : Segment κ) : Prop where
  id : s'.id = s.id
  completed : s'.completed = s.completed
  query : (wraps = true → s.completed = false ∧ ¬ tried) → Query.Alike wraps s.query s'.query

theorem Segment.Twin.mono {wraps : Bool} {tried tried' : Prop} {s s' : Segment κ}
    (h : s.Twin wraps tried s') (himp : tried → tried') : s.Twin wraps tried' s' :=
  ⟨h.id, h.completed, fun hc => h.query fun hw => ⟨(hc hw).1, fun ht => (hc hw).2 (himp ht)⟩⟩

theorem Segment.Twin.eq {tried : Prop} {s s' : Segment κ} (h : s.Twin false tried s') : s' = s := by
  obtain ⟨id, query, completed⟩ := s
  obtain ⟨id', query', completed'⟩ := s'
  obtain ⟨rfl, rfl, hquery⟩ := h
  cases (hquery nofun).eq_of_not
  rfl

theorem Segment.Twin.complete {wraps : Bool} {tried tried' : Prop} {s s' : Segment κ}
    (h : s.Twin wraps tried s') :
    Segment.Twin wraps tried' { s with completed := true } { s' with completed := true } :=
  ⟨h.id, rfl, fun hc => h.query fun hw => nomatch (hc hw).1⟩

def Request.twin (q : Request κ) (segments : Array (Segment κ)) (strict : Bool) : Request κ :=
  { q with segments := segments, settings := { q.settings with strict := strict } }

/-- The segments of two requests, one of which may be being tried. -/
structure Segments.Twin (wraps : Bool) (tried : Option SegmentId)
    (segments segments' : Array (Segment κ)) : Prop where
  size : segments'.size = segments.size
  each : ∀ (s : SegmentId) seg seg', segments[s.index]? = some seg →
    segments'[s.index]? = some seg' → seg.Twin wraps (tried = some s) seg'

theorem modify_id (xs : Array α) (i : Nat) : xs.modify i id = xs := by
  ext j hj hj'
  · exact Array.size_modify
  · simp [Array.getElem_modify]

namespace Segments.Twin

variable {wraps : Bool} {t t' : Option SegmentId} {segments segments' : Array (Segment κ)}

theorem push (h : Segments.Twin wraps t segments segments') {query query' : Query κ}
    (hquery : Query.Alike wraps query query') (id : RowId) :
    Segments.Twin wraps t (segments.push { id := id, query := query })
      (segments'.push { id := id, query := query' }) := by
  refine ⟨by simpa using h.size, fun s seg seg' hseg hseg' => ?_⟩
  rw [Array.getElem?_push] at hseg hseg'
  rw [h.size] at hseg'
  by_cases hs : s.index = segments.size
  · rw [if_pos hs] at hseg hseg'
    cases hseg
    cases hseg'
    exact ⟨rfl, rfl, fun _ => hquery⟩
  · rw [if_neg hs] at hseg hseg'
    exact h.each s seg seg' hseg hseg'

/-- One segment changes on both sides, and perhaps begins or ends being tried. -/
theorem modify (h : Segments.Twin wraps t segments segments') {s : SegmentId}
    {f f' : Segment κ → Segment κ} (hother : ∀ s', s' ≠ s → t = some s' → t' = some s')
    (hf : ∀ seg seg', seg.Twin wraps (t = some s) seg' →
      (f seg).Twin wraps (t' = some s) (f' seg')) :
    Segments.Twin wraps t' (segments.modify s.index f) (segments'.modify s.index f') := by
  refine ⟨by simpa using h.size, fun s' seg seg' hseg hseg' => ?_⟩
  rw [Array.getElem?_modify] at hseg hseg'
  by_cases hs : s.index = s'.index
  · rw [if_pos hs] at hseg hseg'
    obtain ⟨seg₀, hseg₀, rfl⟩ := Option.map_eq_some_iff.mp hseg
    obtain ⟨seg₀', hseg₀', rfl⟩ := Option.map_eq_some_iff.mp hseg'
    obtain rfl : s = s' := congrArg SegmentId.mk hs
    exact hf seg₀ seg₀' (h.each s seg₀ seg₀' hseg₀ hseg₀')
  · rw [if_neg hs] at hseg hseg'
    refine (h.each s' seg seg' hseg hseg').mono fun hs' => ?_
    exact hother s' (fun he => hs (congrArg SegmentId.index he.symm)) hs'

theorem eq (h : Segments.Twin false t segments segments') : segments' = segments := by
  refine Array.ext h.size fun i hi hi' => ?_
  exact (h.each ⟨i⟩ _ _ (Array.getElem?_eq_getElem hi') (Array.getElem?_eq_getElem hi)).eq

end Segments.Twin

inductive Request.Twin (T : Twinning κ σ σ') (tried : Option SegmentId) (q : Request κ) :
    Request κ → Prop
  | intro (segments : Array (Segment κ)) (strict : Bool)
    (hstrict : T.lax = false → strict = q.settings.strict)
    (hsegments : Segments.Twin T.wraps tried q.segments segments) :
    Twin T tried q (q.twin segments strict)

theorem Request.Twin.refl {T : Twinning κ σ σ'} {tried : Option SegmentId} (q : Request κ) :
    q.Twin T tried q := by
  refine ⟨q.segments, q.settings.strict, fun _ => rfl, rfl, ?_⟩
  rintro s seg seg' hseg hseg'
  cases hseg.symm.trans hseg'
  exact ⟨rfl, rfl, fun _ => .refl _⟩

theorem Request.Twin.restate {τ τ' : Type} {T : Twinning κ σ σ'} {V : Twinning κ τ τ'}
    (hwraps : V.wraps = T.wraps) (hlax : V.lax = T.lax) {tried : Option SegmentId}
    {q q' : Request κ} (h : q.Twin T tried q') : q.Twin V tried q' := by
  obtain ⟨segments, strict, hstrict, hsegments⟩ := h
  exact ⟨segments, strict, fun hl => hstrict (hlax ▸ hl), hwraps ▸ hsegments⟩

/-- Without wrappers and with the same checks, nothing differs. -/
theorem Request.Twin.eq {T : Twinning κ σ σ'} (hwraps : T.wraps = false) (hlax : T.lax = false)
    {tried : Option SegmentId} {q q' : Request κ} (h : q.Twin T tried q') : q' = q := by
  obtain ⟨segments, strict, hstrict, hsegments⟩ := h
  rw [hwraps] at hsegments
  rw [hsegments.eq, hstrict hlax]
  rfl

abbrev Tried : Type := RequestId → Option SegmentId

/-- What an action can look up is the same. -/
structure Host.Looks (T : Twinning κ σ σ') (tried : Tried) (h : Host κ σ) (h' : Host κ σ') :
    Prop where
  promises : h'.promises = h.promises
  queue : h'.queue = h.queue
  scheduled : h'.scheduled = h.scheduled
  tasks : h'.tasks = h.tasks
  inPass : h'.inPass = h.inPass
  size : h'.requests.size = h.requests.size
  requests : ∀ (r : RequestId) q q', h.requests[r.index]? = some q →
    h'.requests[r.index]? = some q' → q.Twin T (tried r) q'

structure Host.Twin (T : Twinning κ σ σ') (tried : Tried) (h : Host κ σ) (h' : Host κ σ') : Prop
    extends Host.Looks T tried h h' where
  state : T.state h.promises h.user h'.user
  journal : T.told h'.journal = T.told h.journal

/-- The journal has grown, and as many calls on a request are under way as before. -/
structure Host.Steady (h h₁ : Host κ σ) : Prop where
  journal : h.journal <:+ h₁.journal
  running : ∀ r : RequestId,
    h₁.requests[r.index]?.map Request.running = h.requests[r.index]?.map Request.running

def Host.Busy (calls : RequestId → Nat) (h : Host κ σ) : Prop :=
  ∀ r, 0 < calls r → ∃ q, h.requests[r.index]? = some q ∧ calls r ≤ q.running

def Host.Unspoilt (T : Twinning κ σ σ') (h : Host κ σ) : Prop := ∀ e ∈ h.journal, ¬ T.spoils e

/-- A run of the action from this host is matched in each twin, with any large bound. -/
def MirrorsFrom (T : Twinning κ σ σ') (calls : RequestId → Nat) (tried tried' : Tried)
    (R : α → α' → Prop) (h : Host κ σ) (m : HostM κ σ α) (m' : Nat → HostM κ σ' α') : Prop :=
  ∀ ⦃a h₁⦄, m h = some (a, h₁) → h.Steady h₁ ∧
    ∀ h', h.Twin T tried h' → h.Busy calls → h₁.Unspoilt T →
      ∃ N a' h₁', (∀ n ≥ N, m' n h' = some (a', h₁')) ∧ R a a' ∧ h₁.Twin T tried' h₁'

/-- Each run of the action in the first host is matched in the second. -/
def Mirrors (T : Twinning κ σ σ') (calls : RequestId → Nat) (tried tried' : Tried)
    (R : α → α' → Prop) (m : HostM κ σ α) (m' : Nat → HostM κ σ' α') : Prop :=
  ∀ h, MirrorsFrom T calls tried tried' R h m m'

/-- The same, if no segment begins or ends being tried. -/
abbrev Tracks (T : Twinning κ σ σ') (calls : RequestId → Nat) (tried : Tried)
    (R : α → α' → Prop) (m : HostM κ σ α) (m' : Nat → HostM κ σ' α') : Prop :=
  Mirrors T calls tried tried R m m'

variable {T : Twinning κ σ σ'} {calls : RequestId → Nat} {tried t tried' : Tried}
  {r : RequestId}

namespace Host

variable {h h₁ h₂ : Host κ σ} {h' : Host κ σ'}

theorem Steady.refl (h : Host κ σ) : h.Steady h := ⟨List.suffix_rfl, fun _ => rfl⟩

theorem Steady.trans (h₀₁ : h.Steady h₁) (h₁₂ : h₁.Steady h₂) : h.Steady h₂ :=
  ⟨h₀₁.journal.trans h₁₂.journal, fun r => (h₁₂.running r).trans (h₀₁.running r)⟩

theorem Steady.of_eq (hj : h₁.journal = h.journal) (hr : h₁.requests = h.requests) :
    h.Steady h₁ :=
  ⟨hj ▸ List.suffix_rfl, fun _ => by rw [hr]⟩

theorem Steady.tell (h : Host κ σ) (e : Event) : h.Steady (h.tell e) :=
  ⟨List.suffix_cons e _, fun _ => rfl⟩

theorem requests_update (h : Host κ σ) (r r' : RequestId) (f : Request κ → Request κ) :
    (h.update r f).requests[r'.index]? =
      if r = r' then h.requests[r'.index]?.map f else h.requests[r'.index]? := by
  by_cases hr : r = r'
  · simp [Host.update, Array.getElem?_modify, hr]
  · have hi : r.index ≠ r'.index := fun he => hr (congrArg RequestId.mk he)
    simp [Host.update, Array.getElem?_modify, hr, hi]

theorem update_same {f : Request κ → Request κ} (hf : ∀ q, f q = q) (h : Host κ σ)
    (r : RequestId) : h.update r f = h := by
  rw [Host.update, show f = id from funext hf, modify_id]

theorem Steady.update {f : Request κ → Request κ} (hf : ∀ q, (f q).running = q.running) :
    h.Steady (h.update r f) := by
  refine ⟨List.suffix_rfl, fun r' => ?_⟩
  rw [requests_update]
  split
  · rw [Option.map_map, show Request.running ∘ f = Request.running from funext hf]
  · rfl

theorem Busy.steady (hb : h.Busy calls) (hs : h.Steady h₁) : h₁.Busy calls := by
  intro r hpos
  obtain ⟨q, hq, hle⟩ := hb r hpos
  have hrunning := hs.running r
  rw [hq, Option.map_some] at hrunning
  obtain ⟨q₁, hq₁, he⟩ := Option.map_eq_some_iff.mp hrunning
  exact ⟨q₁, hq₁, he ▸ hle⟩

def enter (h : Host κ σ) (r : RequestId) : Host κ σ :=
  h.update r fun req => { req with running := req.running + 1 }

def leave (h : Host κ σ) (r : RequestId) : Host κ σ :=
  h.update r fun req => { req with running := req.running - 1 }

theorem run_running (m : HostM κ σ α) (h : Host κ σ) :
    Host.running r m h = (m (h.enter r)).map fun p => (p.1, p.2.leave r) :=
  (Option.map_eq_bind (f := _)).symm

/-- What a call does leaves things steady if it does so once it is under way. -/
theorem Steady.leave (hs : (h.enter r).Steady h₁) : h.Steady (h₁.leave r) := by
  refine ⟨hs.journal, fun r' => ?_⟩
  have hrunning := hs.running r'
  rw [Host.enter, requests_update] at hrunning
  rw [Host.leave, requests_update]
  by_cases hr : r = r'
  · rw [if_pos hr] at hrunning ⊢
    have hless := congrArg (Option.map (· - 1)) hrunning
    simpa [Option.map_map, Function.comp_def] using hless
  · rwa [if_neg hr] at hrunning ⊢

theorem Busy.enter (hb : h.Busy calls) {q : Request κ} (hq : h.requests[r.index]? = some q) :
    (h.enter r).Busy (Function.update calls r (calls r + 1)) := by
  intro r' hpos
  by_cases hr : r = r'
  · subst hr
    rw [Function.update_self]
    refine ⟨_, requests_update_self hq _, Nat.succ_le_succ ?_⟩
    cases hcalls : calls r with
    | zero => exact Nat.zero_le _
    | succ n =>
      obtain ⟨q', hq', hle⟩ := hb r (hcalls ▸ Nat.succ_pos n)
      cases hq.symm.trans hq'
      exact hcalls ▸ hle
  · rw [Function.update_of_ne (Ne.symm hr)] at hpos ⊢
    obtain ⟨q', hq', hle⟩ := hb r' hpos
    exact ⟨q', by rw [Host.enter, requests_update, if_neg hr, hq'], hle⟩

theorem Unspoilt.of_suffix (hu : h₁.Unspoilt T) (hs : h.journal <:+ h₁.journal) : h.Unspoilt T :=
  fun e he => hu e (hs.subset he)

def withUser {τ : Type} (h : Host κ σ) (s : τ) : Host κ τ where
  user := s
  promises := h.promises
  requests := h.requests
  queue := h.queue
  scheduled := h.scheduled
  tasks := h.tasks
  inPass := h.inPass
  journal := h.journal

namespace Looks

variable (hl : h.Looks T tried h')
include hl

theorem request {q : Request κ} (hq : h.requests[r.index]? = some q) :
    ∃ q', h'.requests[r.index]? = some q' ∧ q.Twin T (tried r) q' := by
  have hlt : r.index < h'.requests.size := hl.size ▸ (Array.getElem?_eq_some_iff.mp hq).1
  exact ⟨_, Array.getElem?_eq_getElem hlt, hl.requests r q _ hq (Array.getElem?_eq_getElem hlt)⟩

theorem request_missing (hq : h.requests[r.index]? = none) : h'.requests[r.index]? = none := by
  rw [Array.getElem?_eq_none_iff] at hq ⊢
  exact hl.size ▸ hq

theorem isAlive (r : RequestId) : h'.isAlive r = h.isAlive r := by
  unfold Host.isAlive
  rw [hl.queue, hl.tasks]
  cases hq : h.requests[r.index]? with
  | none => rw [hl.request_missing hq]
  | some q =>
    obtain ⟨q', hq', ⟨⟩⟩ := hl.request hq
    rw [hq']
    rfl

end Looks

theorem exists_looks (T : Twinning κ σ σ') (tried : Tried) (h : Host κ σ) :
    ∃ h' : Host κ σ', h.Looks T tried h' := by
  obtain ⟨s'⟩ := T.inhabited
  refine ⟨{ h with user := s' }, rfl, rfl, rfl, rfl, rfl, rfl, fun r q q' hq hq' => ?_⟩
  cases hq.symm.trans hq'
  exact .refl q

namespace Twin

variable (ht : h.Twin T tried h')
include ht

theorem tell (e : Event) : (h.tell e).Twin T tried (h'.tell e) := by
  refine { ht with journal := ?_ }
  change T.told (e :: h'.journal) = T.told (e :: h.journal)
  rw [Twinning.told, Twinning.told, List.filter_cons, List.filter_cons]
  split
  · rw [show h'.journal.filter T.counts = h.journal.filter T.counts from ht.journal]
  · exact ht.journal

theorem tell_left {e : Event} (he : T.counts e = false) : (h.tell e).Twin T tried h' := by
  refine { ht with journal := ?_ }
  change T.told h'.journal = T.told (e :: h.journal)
  rw [Twinning.told, Twinning.told, List.filter_cons_of_neg (by simp [he])]
  exact ht.journal

theorem tell_right {e : Event} (he : T.counts e = false) : h.Twin T tried (h'.tell e) := by
  refine { ht with journal := ?_ }
  change T.told (e :: h'.journal) = T.told h.journal
  rw [Twinning.told, Twinning.told, List.filter_cons_of_neg (by simp [he])]
  exact ht.journal

theorem update {f f' : Request κ → Request κ} (htried : ∀ r', r' ≠ r → tried' r' = tried r')
    (hf : ∀ q q', q.Twin T (tried r) q' → (f q).Twin T (tried' r) (f' q')) :
    (h.update r f).Twin T tried' (h'.update r f') := by
  refine { ht with size := ?_, requests := fun r' q q' hq hq' => ?_ }
  · simpa [Host.update] using ht.size
  rw [requests_update] at hq hq'
  by_cases hr : r = r'
  · rw [if_pos hr] at hq hq'
    obtain ⟨q₀, hq₀, rfl⟩ := Option.map_eq_some_iff.mp hq
    obtain ⟨q₀', hq₀', rfl⟩ := Option.map_eq_some_iff.mp hq'
    subst hr
    exact hf q₀ q₀' (ht.requests r q₀ q₀' hq₀ hq₀')
  · rw [if_neg hr] at hq hq'
    rw [htried r' fun he => hr he.symm]
    exact ht.requests r' q q' hq hq'

/-- How many calls are under way is the same and changes in the same way. -/
theorem recount (d : Nat → Nat) :
    (h.update r fun req => { req with running := d req.running }).Twin T tried
      (h'.update r fun req => { req with running := d req.running }) := by
  refine ht.update (fun _ _ => rfl) fun q q' htwin => ?_
  obtain ⟨segments, strict, hstrict, hsegments⟩ := htwin
  exact ⟨segments, strict, hstrict, hsegments⟩

/-- Twins may be twins in another sense, if the users' states are replaced. -/
theorem restate {τ τ' : Type} {V : Twinning κ τ τ'} (hwraps : V.wraps = T.wraps)
    (hlax : V.lax = T.lax) (hwarned : V.warned = T.warned) {s : τ} {s' : τ'}
    (hs : V.state h.promises s s') : (h.withUser s).Twin V tried (h'.withUser s') := by
  refine { promises := ht.promises, queue := ht.queue, scheduled := ht.scheduled, tasks := ht.tasks
           inPass := ht.inPass, size := ht.size, requests := fun r q q' hq hq' => ?_
           state := hs, journal := ?_ }
  · exact (ht.requests r q q' hq hq').restate hwraps hlax
  · have hcounts : V.counts = T.counts := funext fun e => by
      rw [Twinning.counts, Twinning.counts, hwarned]
    rw [Twinning.told, Twinning.told, hcounts]
    exact ht.journal

/-- Without wrappers, with the same checks, and if warnings count, nothing differs but the state of
the user. -/
theorem eq_withUser (hwraps : T.wraps = false) (hlax : T.lax = false) (hwarned : T.warned = true) :
    h' = h.withUser h'.user := by
  have hrequests : h'.requests = h.requests := by
    refine Array.ext ht.size fun i hi hi' => ?_
    have htwin := ht.requests ⟨i⟩ _ _ (Array.getElem?_eq_getElem hi') (Array.getElem?_eq_getElem hi)
    exact htwin.eq hwraps hlax
  have hjournal : h'.journal = h.journal := by
    have hall : ∀ log, T.told log = log := fun log =>
      List.filter_eq_self.mpr fun e _ => by rw [Twinning.counts, hwarned, Bool.true_or]
    rw [← hall h'.journal, ht.journal, hall]
  obtain ⟨promises, queue, scheduled, tasks, inPass, size, requests⟩ := ht.toLooks
  cases h
  cases h'
  cases promises
  cases queue
  cases scheduled
  cases tasks
  cases inPass
  cases hrequests
  cases hjournal
  rfl

theorem push {q q' : Request κ} (hq : q.Twin T (tried ⟨h.requests.size⟩) q') :
    Host.Twin T tried { h with requests := h.requests.push q }
      { h' with requests := h'.requests.push q' } := by
  refine { ht with size := ?_, requests := fun r q₁ q₁' hq₁ hq₁' => ?_ }
  · simpa using ht.size
  rw [Array.getElem?_push] at hq₁ hq₁'
  rw [ht.size] at hq₁'
  by_cases hr : r.index = h.requests.size
  · rw [if_pos hr] at hq₁ hq₁'
    cases hq₁
    cases hq₁'
    rwa [← hr] at hq
  · rw [if_neg hr] at hq₁ hq₁'
    exact ht.requests r q₁ q₁' hq₁ hq₁'

end Twin
end Host

/-- The change does not depend on the segments nor on strict checks, touches neither, and is not
about calls under way. -/
def Request.Commutes (f : Request κ → Request κ) : Prop :=
  ∀ q segments strict, f (q.twin segments strict) = (f q).twin segments strict ∧
    (f q).segments = q.segments ∧ (f q).settings.strict = q.settings.strict ∧
    (f q).running = q.running

theorem Request.Twin.commutes {f : Request κ → Request κ} (hf : Request.Commutes f)
    {t : Option SegmentId} {q q' : Request κ} (h : q.Twin T t q') : (f q).Twin T t (f q') := by
  obtain ⟨segments, strict, hstrict, hsegments⟩ := h
  obtain ⟨htwin, hsame, hkept, -⟩ := hf q segments strict
  rw [htwin]
  exact ⟨segments, strict, fun hw => hkept ▸ hstrict hw, hsame ▸ hsegments⟩

namespace Mirrors

open Host

variable {R : α → α' → Prop} {S : β → β' → Prop} {m : HostM κ σ α} {m' l : Nat → HostM κ σ' α'}
  {k : α → HostM κ σ β} {k' : Nat → α' → HostM κ σ' β'}

theorem pure {a : α} {a' : α'} (h : R a a') :
    Tracks T calls tried R (pure a : HostM κ σ α) fun _ => (pure a' : HostM κ σ' α') := by
  intro h₀ b h₁ hrun
  cases hrun
  exact ⟨.refl h₀, fun h' ht _ _ => ⟨0, a', h', fun _ _ => rfl, h, ht⟩⟩

theorem failure : Mirrors T calls tried tried' R (failure : HostM κ σ α) m' := by
  intro h₀ a h₁ hrun
  cases hrun

/-- One action after the other. Each result of the first one has something that belongs to it. -/
theorem bind (hR : ∀ a, ∃ a', R a a') (hm : Mirrors T calls tried t R m m')
    (hk : ∀ a a', R a a' → Mirrors T calls t tried' S (k a) fun n => k' n a') :
    Mirrors T calls tried tried' S (m >>= k) fun n => m' n >>= k' n := by
  intro h b h₂ hrun
  obtain ⟨⟨a, h₁⟩, hfirst, hrest⟩ := Option.bind_eq_some_iff.mp hrun
  obtain ⟨hsteady, hmatch⟩ := hm _ hfirst
  obtain ⟨a₀, ha₀⟩ := hR a
  have hsteady' : h₁.Steady h₂ := (hk a a₀ ha₀ _ hrest).1
  refine ⟨hsteady.trans hsteady', fun h' ht hb hu => ?_⟩
  obtain ⟨N, a', h₁', hrun', ha, ht₁⟩ := hmatch h' ht hb (hu.of_suffix hsteady'.journal)
  obtain ⟨N', b', h₂', hrest', hb', ht₂⟩ := (hk a a' ha _ hrest).2 h₁' ht₁ (hb.steady hsteady) hu
  refine ⟨max N N', b', h₂', fun n hn => ?_, hb', ht₂⟩
  change (m' n h').bind (fun p => k' n p.1 p.2) = _
  rw [hrun' n (le_trans (le_max_left N N') hn), Option.bind_some]
  exact hrest' n (le_trans (le_max_right N N') hn)

theorem bind_eq {m' : Nat → HostM κ σ' α} {k' : Nat → α → HostM κ σ' β'}
    (hm : Mirrors T calls tried t Eq m m')
    (hk : ∀ a, Mirrors T calls t tried' S (k a) fun n => k' n a) :
    Mirrors T calls tried tried' S (m >>= k) fun n => m' n >>= k' n :=
  hm.bind (fun a => ⟨a, rfl⟩) fun a _ ha => ha ▸ hk a

theorem mono {R' : α → α' → Prop} (hm : Mirrors T calls tried tried' R m m')
    (hR : ∀ a a', R a a' → R' a a') : Mirrors T calls tried tried' R' m m' := by
  intro h a h₁ hrun
  obtain ⟨hsteady, hmatch⟩ := hm _ hrun
  refine ⟨hsteady, fun h' ht hb hu => ?_⟩
  obtain ⟨N, a', h₁', hrun', ha, ht₁⟩ := hmatch h' ht hb hu
  exact ⟨N, a', h₁', hrun', hR a a' ha, ht₁⟩

theorem map {f : α → β} {f' : α' → β'} (hm : Mirrors T calls tried tried' R m m')
    (hf : ∀ a a', R a a' → S (f a) (f' a')) :
    Mirrors T calls tried tried' S (f <$> m) fun n => f' <$> m' n := by
  intro h b h₁ hrun
  obtain ⟨⟨a, h₀⟩, hfirst, hend⟩ := Option.bind_eq_some_iff.mp hrun
  cases hend
  obtain ⟨hsteady, hmatch⟩ := hm _ hfirst
  refine ⟨hsteady, fun h' ht hb hu => ?_⟩
  obtain ⟨N, a', h₁', hrun', ha, ht₁⟩ := hmatch h' ht hb hu
  refine ⟨N, f' a', h₁', fun n hn => ?_, hf a a' ha, ht₁⟩
  change (m' n h').bind (fun p => some (f' p.1, p.2)) = _
  rw [hrun' n hn, Option.bind_some]

/-- Only large bounds matter. -/
theorem of_eventually {N : Nat} (he : ∀ n ≥ N, m' n = l n)
    (hm : Mirrors T calls tried tried' R m l) : Mirrors T calls tried tried' R m m' := by
  intro h a h₁ hrun
  obtain ⟨hsteady, hmatch⟩ := hm _ hrun
  refine ⟨hsteady, fun h' ht hb hu => ?_⟩
  obtain ⟨N', a', h₁', hrun', ha, ht₁⟩ := hmatch h' ht hb hu
  refine ⟨max N N', a', h₁', fun n hn => ?_, ha, ht₁⟩
  rw [he n (le_trans (le_max_left N N') hn), hrun' n (le_trans (le_max_right N N') hn)]

/-- A bound that is large enough has a predecessor, also where something is taken off it. -/
theorem step {g : Nat → Nat → HostM κ σ' α'} {j : Nat}
    (hm : Mirrors T calls tried tried' R m fun n => g n (n - (j + 1) + 1)) :
    Mirrors T calls tried tried' R m fun n => g n (n - j) :=
  of_eventually (N := j + 1)
    (fun n hn => congrArg (g n) (show n - j = n - (j + 1) + 1 by omega)) hm

theorem less (k : Nat) (hm : Mirrors T calls tried tried' R m m') :
    Mirrors T calls tried tried' R m fun n => m' (n - k) := by
  intro h a h₁ hrun
  obtain ⟨hsteady, hmatch⟩ := hm _ hrun
  refine ⟨hsteady, fun h' ht hb hu => ?_⟩
  obtain ⟨N, a', h₁', hrun', ha, ht₁⟩ := hmatch h' ht hb hu
  exact ⟨N + k, a', h₁', fun n hn => hrun' (n - k) (Nat.le_sub_of_add_le hn), ha, ht₁⟩

/-- What is tried may be taken for something else where that makes no difference. -/
theorem of_twins (hm : Mirrors T calls t tried' R m m')
    (htwin : ∀ h h', Host.Twin T tried h h' → Host.Twin T t h h') :
    Mirrors T calls tried tried' R m m' := fun _ _ _ hrun =>
  ⟨(hm _ hrun).1, fun h' ht hb hu => (hm _ hrun).2 h' (htwin _ h' ht) hb hu⟩

/-! ## Looking -/

theorem get {k : Host κ σ → HostM κ σ β} {k' : Nat → Host κ σ' → HostM κ σ' β'}
    (hk : ∀ h h', h.Looks T tried h' → Mirrors T calls tried tried' S (k h) fun n => k' n h') :
    Mirrors T calls tried tried' S (MonadState.get >>= k) fun n => MonadState.get >>= k' n := by
  intro h b h₁ hrun
  have hrest : k h h = some (b, h₁) := hrun
  obtain ⟨h₀', hl⟩ := exists_looks T tried h
  refine ⟨(hk h h₀' hl _ hrest).1, fun h' ht hb hu => ?_⟩
  exact (hk h h' ht.toLooks _ hrest).2 h' ht hb hu

/-- The state of the user is read, and the other's state tells the same. -/
theorem reading {k : σ → HostM κ σ β} {k' : Nat → σ → HostM κ σ' β'} (told : σ' → σ)
    (htold : ∀ P s s', T.state P s s' → told s' = s)
    (hk : ∀ s, Mirrors T calls tried tried' S (k s) fun n => k' n s) :
    Mirrors T calls tried tried' S (MonadState.get >>= fun h => k h.user) fun n =>
      MonadState.get >>= fun h' => k' n (told h'.user) := by
  intro h b h₁ hrun
  obtain ⟨hsteady, hmatch⟩ := hk h.user h hrun
  refine ⟨hsteady, fun h' ht hb hu => ?_⟩
  obtain ⟨N, b', h₁', hrun', hb', ht₁⟩ := hmatch h' ht hb hu
  refine ⟨N, b', h₁', fun n hn => ?_, hb', ht₁⟩
  change k' n (told h'.user) h' = _
  rw [htold _ _ _ ht.state]
  exact hrun' n hn

theorem request {k : Request κ → HostM κ σ β} {k' : Nat → Request κ → HostM κ σ' β'}
    (hk : ∀ q q', q.Twin T (tried r) q' →
      Mirrors T calls tried tried' S (k q) fun n => k' n q') :
    Mirrors T calls tried tried' S (Host.request r >>= k) fun n => Host.request r >>= k' n := by
  intro h b h₁ hrun
  obtain ⟨⟨q, h₀⟩, hreq, hrest⟩ := Option.bind_eq_some_iff.mp hrun
  obtain ⟨hq, rfl⟩ := request_of_run hreq
  refine ⟨(hk q q (.refl q) _ hrest).1, fun h' ht hb hu => ?_⟩
  obtain ⟨q', hq', htwin⟩ := ht.request hq
  obtain ⟨N, b', h₁', hrun', hb', ht₁⟩ := (hk q q' htwin _ hrest).2 h' ht hb hu
  refine ⟨N, b', h₁', fun n hn => ?_, hb', ht₁⟩
  change (Host.request r h').bind (fun p => k' n p.1 p.2) = _
  rw [run_request hq', Option.bind_some]
  exact hrun' n hn

theorem request_same {k : Request κ → HostM κ σ β} {k' : Nat → Request κ → HostM κ σ' β'}
    (hk : ∀ q segments strict,
      Mirrors T calls tried tried' S (k q) fun n => k' n (q.twin segments strict)) :
    Mirrors T calls tried tried' S (Host.request r >>= k) fun n => Host.request r >>= k' n :=
  request fun q _ htwin => by
    obtain ⟨segments, strict, -⟩ := htwin
    exact hk q segments strict

theorem segment {s : SegmentId} {k : Segment κ → HostM κ σ β}
    {k' : Nat → Segment κ → HostM κ σ' β'}
    (hk : ∀ seg seg', seg.Twin T.wraps (tried r = some s) seg' →
      Mirrors T calls tried tried' S (k seg) fun n => k' n seg') :
    Mirrors T calls tried tried' S (Host.segment r s >>= k) fun n => Host.segment r s >>= k' n := by
  simp only [Host.segment, bind_assoc]
  refine request fun q q' htwin => ?_
  obtain ⟨segments, strict, -, hsegments⟩ := htwin
  cases hseg : q.segments[s.index]? with
  | none => exact failure
  | some seg =>
    have hlt : s.index < segments.size :=
      hsegments.size ▸ (Array.getElem?_eq_some_iff.mp hseg).1
    have hseg' : (q.twin segments strict).segments[s.index]? = some segments[s.index] :=
      Array.getElem?_eq_getElem hlt
    simp only [hseg', pure_bind]
    exact hk seg _ (hsegments.each s seg _ hseg hseg')

theorem promise {p : PromiseId} {k : PromiseCell κ → HostM κ σ β}
    {k' : Nat → PromiseCell κ → HostM κ σ' β'}
    (hk : ∀ cell, Mirrors T calls tried tried' S (k cell) fun n => k' n cell) :
    Mirrors T calls tried tried' S (Host.promise p >>= k) fun n => Host.promise p >>= k' n := by
  simp only [Host.promise, bind_assoc]
  refine get fun h h' hl => ?_
  rw [hl.promises]
  cases h.promises[p.index]? with
  | none => exact failure
  | some cell =>
    simp only [pure_bind]
    exact hk cell

/-! ## Changes -/

theorem change {f : Host κ σ → Host κ σ} {f' : Host κ σ' → Host κ σ'}
    (hs : ∀ h : Host κ σ, h.Steady (f h))
    (hf : ∀ h h', h.Twin T tried h' → (f h).Twin T tried' (f' h')) :
    Mirrors T calls tried tried' Eq (modify f : HostM κ σ Unit)
      fun _ => (modify f' : HostM κ σ' Unit) := by
  intro h a h₁ hrun
  cases hrun
  exact ⟨hs h, fun h' ht _ _ => ⟨0, (), f' h', fun _ _ => rfl, rfl, hf h h' ht⟩⟩

theorem change_left {f : Host κ σ → Host κ σ} (hs : ∀ h : Host κ σ, h.Steady (f h))
    (hf : ∀ h h', h.Twin T tried h' → (f h).Twin T t h') {k : Unit → HostM κ σ α}
    (hk : Mirrors T calls t tried' R (k ()) m') :
    Mirrors T calls tried tried' R ((modify f : HostM κ σ Unit) >>= k) m' := by
  intro h a h₁ hrun
  have hrest : k () (f h) = some (a, h₁) := hrun
  obtain ⟨hsteady, hmatch⟩ := hk _ hrest
  exact ⟨(hs h).trans hsteady, fun h' ht hb hu => hmatch h' (hf h h' ht) (hb.steady (hs h)) hu⟩

theorem change_right {f' : Host κ σ' → Host κ σ'}
    (hf : ∀ (h : Host κ σ) h', h.Twin T tried h' → h.Twin T t (f' h'))
    {k' : Nat → Unit → HostM κ σ' α'}
    (hk : Mirrors T calls t tried' R m fun n => k' n ()) :
    Mirrors T calls tried tried' R m fun n => (modify f' : HostM κ σ' Unit) >>= k' n := by
  intro h a h₁ hrun
  obtain ⟨hsteady, hmatch⟩ := hk _ hrun
  exact ⟨hsteady, fun h' ht hb hu => hmatch (f' h') (hf h h' ht) hb hu⟩

theorem record (e : Event) : Tracks T calls tried Eq (Host.record e : HostM κ σ Unit)
    fun _ => (Host.record e : HostM κ σ' Unit) :=
  change (fun h => .tell h e) fun _ _ ht => ht.tell e

theorem tell {e : Event} {k : Unit → HostM κ σ β} {k' : Nat → Unit → HostM κ σ' β'}
    (hk : Mirrors T calls tried tried' S (k ()) fun n => k' n ()) :
    Mirrors T calls tried tried' S (Host.record e >>= k) fun n => Host.record e >>= k' n :=
  bind_eq (record e) fun _ => hk

theorem spoiling (hm : ∀ ⦃h a h₁⦄, m h = some (a, h₁) → h.Steady h₁ ∧ ¬ h₁.Unspoilt T) :
    Mirrors T calls tried tried' R m m' := fun _ _ _ hrun =>
  ⟨(hm hrun).1, fun _ _ _ hu => absurd hu (hm hrun).2⟩

theorem modifyRequest {f : Request κ → Request κ} (hf : Request.Commutes f) :
    Tracks T calls tried Eq (Host.modifyRequest r f : HostM κ σ Unit)
      fun _ => (Host.modifyRequest r f : HostM κ σ' Unit) :=
  change (fun _ => .update fun q => (hf q #[] false).2.2.2)
    fun _ _ ht => ht.update (fun _ _ => rfl) fun _ _ htwin => htwin.commutes hf

theorem update {f : Request κ → Request κ} (hf : Request.Commutes f) {k : Unit → HostM κ σ β}
    {k' : Nat → Unit → HostM κ σ' β'}
    (hk : Mirrors T calls tried tried' S (k ()) fun n => k' n ()) :
    Mirrors T calls tried tried' S (Host.modifyRequest r f >>= k)
      fun n => Host.modifyRequest r f >>= k' n :=
  bind_eq (modifyRequest hf) fun _ => hk

/-- While an action on a request runs, one call more is under way. -/
theorem running_from {q : Request κ} {m' : Nat → HostM κ σ' α'} {h : Host κ σ}
    (hq : h.requests[r.index]? = some q)
    (hm : Mirrors T (Function.update calls r (calls r + 1)) tried tried' R m m') :
    MirrorsFrom T calls tried tried' R h (Host.running r m) fun n => Host.running r (m' n) := by
  intro a h₂ hrun
  rw [run_running] at hrun
  obtain ⟨⟨b, h₁⟩, hfirst, hend⟩ := Option.map_eq_some_iff.mp hrun
  cases hend
  obtain ⟨hsteady, hmatch⟩ := hm _ hfirst
  refine ⟨hsteady.leave, fun h' ht hb hu => ?_⟩
  obtain ⟨N, a', h₁', hrun', ha, ht₁⟩ := hmatch (h'.enter r) (ht.recount (· + 1)) (hb.enter hq) hu
  refine ⟨N, a', h₁'.leave r, fun n hn => ?_, ha, ht₁.recount (· - 1)⟩
  refine (run_running (m' n) h').trans ?_
  rw [hrun' n hn, Option.map_some]

theorem forM {f : β → HostM κ σ Unit} {f' : Nat → β → HostM κ σ' Unit}
    (hf : ∀ b, Tracks T calls tried Eq (f b) fun n => f' n b) (xs : List β) :
    Tracks T calls tried Eq (xs.forM f) fun n => xs.forM (f' n) := by
  induction xs with
  | nil => exact pure rfl
  | cons x xs ih => exact (hf x).bind_eq fun _ => ih

end Mirrors
end TreeStream
