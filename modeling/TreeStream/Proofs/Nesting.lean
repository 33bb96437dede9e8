import TreeStream.Proofs.Coherence

/-!
# Passes inside passes

A request counts the calls on it that are under way, and a pass notes when it begins whether it is
not the only one. As long as no pass was nested, at most one is under way. As long as no pass tries
a segment that another one is trying, each attempt finds its segment open until it ends.
-/

namespace TreeStream

variable {κ : Type} {W : World κ} {r : RequestId} {g g' : Hand κ} {v v' : View κ}

theorem Turn.log (h : Turn W r g v g' v') : ∃ events, v'.log = events ++ v.log := by
  cases h with
  | ambient h =>
    cases h with
    | create => exact ⟨[_], rfl⟩
    | say e => exact ⟨[e], rfl⟩
    | _ => exact ⟨[], rfl⟩
  | visit h =>
    cases h with
    | start => exact ⟨[_, _], rfl⟩
    | flowAgain | ping => exact ⟨[_], rfl⟩
    | firstPing => exact ⟨[_, _], rfl⟩
    | _ => exact ⟨[], rfl⟩
  | flushing h =>
    cases h with
    | openOwn | calling | called => exact ⟨[_], rfl⟩
    | _ => exact ⟨[], rfl⟩
  | working h =>
    cases h with
    | begin | skip | attempt | leave | defer | complete | fail => exact ⟨[_], rfl⟩
    | report => exact ⟨[_, _], rfl⟩
    | _ => exact ⟨[], rfl⟩

/-! ## Calls under way -/

def Hand.ownFlushes (g : Hand κ) : Nat :=
  match g.delivery with
  | some d => (!d.ofPass).toNat
  | none => 0

/-- The calls on a request that are under way. -/
def Hand.calls (g : Hand κ) : Nat := g.fresh + g.passes.length + g.ownFlushes

theorem Request.running_setRows (q : Request κ) (kind : RowKind) (rows : List Row) :
    (q.setRows kind rows).running = q.running := by
  cases kind <;> rfl

theorem Turn.running (hc : Coherent g v) (h : Turn W r g v g' v')
    (ih : ∀ q, v.request = some q → q.running = g.calls) (q : Request κ)
    (hq : v'.request = some q) : q.running = g'.calls := by
  cases h with
  | ambient h =>
    have hcalls : g'.calls = g.calls := by
      obtain ⟨hp, hd, hf, -⟩ := h.hand_eq
      simp only [Hand.calls, Hand.ownFlushes, hp, hd, hf]
    rw [hcalls]
    cases h with
    | create settings model hnone =>
      cases hq
      have hidle : ¬ g.Busy := fun hbusy => by
        obtain ⟨q, hq⟩ := hc.present hbusy
        cases hnone.symm.trans hq
      simp only [Hand.Busy, not_or, Nat.not_lt, Nat.le_zero, not_not] at hidle
      obtain ⟨hf, hp, hd⟩ := hidle
      simp [Request.ofModel, Hand.calls, Hand.ownFlushes, hf, hp, hd]
    | adjust hq' => cases hq; exact (ih _ hq' :)
    | _ => exact ih q hq
  | visit h =>
    cases h with
    | pop hq' | enter hq' | leave hq' =>
      cases hq
      have := ih _ hq'
      simp only [Hand.calls, Hand.ownFlushes] at this ⊢
      omega
    | start hq' | flowAgain hq' | ping hq' | firstPing hq' => cases hq; exact (ih _ hq' :)
    | ask | lostPing => exact ih q hq
  | flushing h =>
    cases h with
    | openOwn hq' hf hfresh =>
      cases hq
      have hdelivery : g.delivery = none := Hand.delivery_eq_none (hc.flushing _ hq') hf
      have := ih _ hq'
      simp only [Hand.calls, Hand.ownFlushes, hdelivery, Bool.not_false, Bool.toNat_true] at this ⊢
      omega
    | openLast hq' hf =>
      cases hq
      have hdelivery : g.delivery = none := Hand.delivery_eq_none (hc.flushing _ hq') hf
      simpa [Hand.calls, Hand.ownFlushes, hdelivery] using ih _ hq'
    | shutOwn hq' hd hdone ho =>
      cases hq
      have := ih _ hq'
      simp only [Hand.calls, Hand.ownFlushes, hd, ho, Bool.not_false, Bool.toNat_true] at this ⊢
      omega
    | shutLast hq' hd hdone ho hb =>
      cases hq
      have := ih _ hq'
      simp only [Hand.calls, Hand.ownFlushes, hd, ho, hb, Bool.not_true, Bool.toNat_false,
        List.length_cons] at this ⊢
      omega
    | take kind hq' hd =>
      cases hq
      simpa [Hand.calls, Hand.ownFlushes, hd, Request.running_setRows] using ih _ hq'
    | runDry kind hq' hd =>
      cases kind <;> simpa [Hand.calls, Hand.ownFlushes, hd, Delivery.runDry] using ih q hq
    | calling c hq' hd | called c answer hd =>
      simpa [Hand.calls, Hand.ownFlushes, hd, Delivery.called] using ih q hq
    | stop hq' hd =>
      cases hq
      simpa [Hand.calls, Hand.ownFlushes, hd] using ih _ hq'
    | unfinished hq' hd => simpa [Hand.calls, Hand.ownFlushes, hd] using ih q hq
    | close hq' hd =>
      cases hq
      simpa [Hand.calls, Hand.ownFlushes, hd] using ih _ hq'
  | working h =>
    cases h with
    | begin hq' hm hfresh =>
      cases hq
      have := ih _ hq'
      simp only [Hand.calls, Hand.ownFlushes, List.length_cons] at this ⊢
      omega
    | finish hb =>
      have := ih q hq
      simp only [Hand.calls, Hand.ownFlushes, hb, List.length_cons] at this ⊢
      omega
    | memo hb ha hv hq' => cases hq; exact (ih _ hq' :)
    | skip hb | attempt hb | leave hb | value hb | layer hb | wait hb =>
      simpa [Hand.calls, Hand.ownFlushes, hb] using ih q hq
    | defer _ hb ha hv hq' | report _ hb ha hv hq' | complete hb ha hv hw hq'
    | fail hb ha hw hq' =>
      cases hq
      simpa [Hand.calls, Hand.ownFlushes, hb] using ih _ hq'

theorem Course.running (h : Course W r g v) (q : Request κ) (hq : v.request = some q) :
    q.running = g.calls := by
  induction h generalizing q with
  | start => cases hq
  | turn hc ht ih => exact ht.running hc.coherent ih q hq

/-! ## Calm courses -/

def View.Calm (r : RequestId) (v : View κ) : Prop := Event.began r true ∉ v.log

theorem Turn.calm (h : Turn W r g v g' v') (hcalm : v'.Calm r) : v.Calm r := by
  obtain ⟨events, he⟩ := h.log
  intro hmem
  exact hcalm (by rw [he]; exact List.mem_append_right events hmem)

/-- A pass that is not nested begins with nothing else under way. -/
theorem Course.calls_of_begin (hc : Course W r g v) {q : Request κ} (hq : v.request = some q)
    (hfresh : 0 < g.fresh) (hcalm : Event.began r true ≠ .began r (decide (1 < q.running))) :
    g.fresh = 1 ∧ g.passes = [] ∧ g.ownFlushes = 0 := by
  have hrunning := hc.running q hq
  have hle : q.running ≤ 1 := by
    by_contra hlt
    exact hcalm (by simp [Nat.lt_of_not_le hlt])
  simp only [Hand.calls] at hrunning
  refine ⟨by omega, List.length_eq_zero_iff.mp (by omega), by omega⟩

theorem Course.passes_of_began (hc : Course W r g v) {q : Request κ} (hq : v.request = some q)
    (hfresh : 0 < g.fresh) (hcalm : v'.Calm r)
    (hlog : v'.log = .began r (decide (1 < q.running)) :: v.log) : g.passes = [] := by
  refine (hc.calls_of_begin hq hfresh fun he => hcalm ?_).2.1
  rw [hlog, he]
  exact List.mem_cons_self

/-- At most one pass is under way. -/
theorem Course.length_passes (h : Course W r g v) (hcalm : v.Calm r) : g.passes.length ≤ 1 := by
  induction h with
  | start => exact Nat.zero_le 1
  | @turn g v g' v' hc ht ih =>
    have ih := ih (ht.calm hcalm)
    cases ht with
    | ambient h => rwa [h.hand_eq.1]
    | visit h => rwa [h.hand_eq.1]
    | flushing h =>
      cases h with
      | shutLast hq hd hdone ho hb =>
        rw [hb, List.length_cons] at ih
        exact Nat.le_of_succ_le ih
      | _ => exact ih
    | working h =>
      cases h with
      | begin hq hm hfresh =>
        obtain ⟨-, hnil, -⟩ := hc.calls_of_begin hq hfresh fun he => hcalm (by simp [← he])
        simp [hnil]
      | finish hb =>
        rw [hb, List.length_cons] at ih
        exact Nat.le_of_succ_le ih
      | memo => exact ih
      | skip hb | attempt hb | leave hb | value hb | layer hb | wait hb | defer _ hb | report _ hb
      | complete hb | fail hb => simpa [hb] using ih

theorem Course.passes_eq (h : Course W r g v) (hcalm : v.Calm r) {b : PassState κ}
    {bs : List (PassState κ)} (hb : g.passes = b :: bs) : bs = [] := by
  have := h.length_passes hcalm
  rw [hb, List.length_cons] at this
  exact List.length_eq_zero_iff.mp (by omega)

/-! ## Open segments -/

theorem SegmentId.eq_of_index {s s' : SegmentId} (h : s.index = s'.index) : s = s' := by
  cases s
  cases s'
  cases h
  rfl

def Request.HasOpen (q : Request κ) (s : SegmentId) : Prop :=
  ∃ seg, q.segments[s.index]? = some seg ∧ seg.completed = false

theorem Request.Keeps.hasOpen {q q' : Request κ} (h : q.Keeps q') {s : SegmentId}
    (ho : q.HasOpen s) : q'.HasOpen s := by
  rwa [HasOpen, h.segments]

theorem Request.HasOpen.modify {q q' : Request κ} {s : SegmentId} (ho : q.HasOpen s) {i : Nat}
    {f : Segment κ → Segment κ} (hseg : q'.segments = q.segments.modify i f)
    (hf : i = s.index → ∀ seg, seg.completed = false → (f seg).completed = false) :
    q'.HasOpen s := by
  obtain ⟨seg, hs, hc⟩ := ho
  rw [HasOpen, hseg, Array.getElem?_modify]
  split
  · rename_i hi
    exact ⟨f seg, by simp [hs], hf hi seg hc⟩
  · exact ⟨seg, hs, hc⟩

theorem Request.HasOpen.push {q q' : Request κ} {s : SegmentId} (ho : q.HasOpen s)
    {new : Segment κ} (hseg : q'.segments = q.segments.push new) : q'.HasOpen s := by
  obtain ⟨seg, hs, hc⟩ := ho
  obtain ⟨hi, -⟩ := Array.getElem?_eq_some_iff.mp hs
  refine ⟨seg, ?_, hc⟩
  rw [hseg, Array.getElem?_push, if_neg (by omega)]
  exact hs

theorem Turn.hasOpen (h : Turn W r g v g' v') {q : Request κ} (hq : v.request = some q)
    {s : SegmentId} (ho : q.HasOpen s)
    (hs : ∀ b bs a, g.passes = b :: bs → b.attempt = some a → a.segment = s →
      g'.passes ≠ { b with attempt := none } :: bs) :
    ∃ q', v'.request = some q' ∧ q'.HasOpen s := by
  cases h with
  | ambient h =>
    obtain ⟨q', hq', hk⟩ := h.keeps hq
    exact ⟨q', hq', hk.hasOpen ho⟩
  | visit h =>
    obtain ⟨q', hq', hk⟩ := h.keeps hq
    exact ⟨q', hq', hk.hasOpen ho⟩
  | flushing h =>
    obtain ⟨q', hq', hk⟩ := h.keeps hq
    exact ⟨q', hq', hk.hasOpen ho⟩
  | working h =>
    cases h with
    | skip | attempt | leave | value | layer | wait | finish => exact ⟨q, hq, ho⟩
    | begin hq' | report e hb ha hv hq' => cases hq.symm.trans hq'; exact ⟨_, rfl, ho⟩
    | @memo q' b bs a e hb ha hv hq' =>
      cases hq.symm.trans hq'
      exact ⟨_, rfl, ho.modify (f := fun seg => { seg with query := .model (.element e) }) rfl
        fun _ _ hc => hc⟩
    | defer query hb ha hv hq' =>
      cases hq.symm.trans hq'
      exact ⟨_, rfl, ho.push rfl⟩
    | complete hb ha hv hw hq' | fail hb ha hw hq' =>
      cases hq.symm.trans hq'
      refine ⟨_, rfl, ho.modify (f := fun seg => { seg with completed := true }) rfl fun hi => ?_⟩
      exact absurd rfl (hs _ _ _ hb ha (SegmentId.eq_of_index hi))

/-! ## The segments being tried -/

/-- The segments that are being tried, the one tried last in front. -/
def Event.tryingIn : List Event → List SegmentId
  | [] => []
  | .retried _ s :: log => s :: tryingIn log
  | .left _ s :: log => (tryingIn log).erase s
  | _ :: log => tryingIn log

/-- Some segment was tried once more while it was being tried. -/
def Event.overlaps : List Event → Bool
  | [] => false
  | .retried _ s :: log => decide (s ∈ tryingIn log) || overlaps log
  | _ :: log => overlaps log

/-- No pass has tried a segment that another one was trying. -/
def View.Apart (v : View κ) : Prop := Event.overlaps v.log = false

def Event.isTrial : Event → Bool
  | retried _ _ => true
  | left _ _ => true
  | _ => false

theorem Event.tryingIn_append {events : List Event} (he : ∀ e ∈ events, e.isTrial = false)
    (log : List Event) : tryingIn (events ++ log) = tryingIn log := by
  induction events with
  | nil => rfl
  | cons e events ih =>
    have hrest := ih fun e hmem => he e (List.mem_cons_of_mem _ hmem)
    have hquiet := he e List.mem_cons_self
    cases e <;> first | exact hrest | cases hquiet

theorem Event.overlaps_append {events : List Event} (he : ∀ e ∈ events, e.isTrial = false)
    (log : List Event) : overlaps (events ++ log) = overlaps log := by
  induction events with
  | nil => rfl
  | cons e events ih =>
    have hrest := ih fun e hmem => he e (List.mem_cons_of_mem _ hmem)
    have hquiet := he e List.mem_cons_self
    cases e <;> first | exact hrest | cases hquiet

theorem Event.IsAside.isTrial {e : Event} (h : e.IsAside) : e.isTrial = false := by
  cases e <;> first | rfl | exact h.elim

/-- The segments that the passes under way are at, that of the innermost pass in front. -/
def Hand.trying (g : Hand κ) : List SegmentId := g.passes.filterMap PassState.current

theorem Hand.trying_of_top {b : PassState κ} {bs : List (PassState κ)} (hb : g.passes = b :: bs) :
    g.trying = b.current.toList ++ bs.filterMap PassState.current := by
  rw [Hand.trying, hb, List.filterMap_cons]
  cases b.current <;> rfl

theorem Hand.trying_top_eq {b b' : PassState κ} {bs : List (PassState κ)}
    (hb : g.passes = b :: bs) (hb' : g'.passes = b' :: bs) (hcur : b'.current = b.current) :
    g'.trying = g.trying := by
  rw [Hand.trying_of_top hb, Hand.trying_of_top hb', hcur]

/-- A turn begins to try a segment, or leaves it, or does neither. -/
theorem Turn.trials (h : Turn W r g v g' v') :
    (∃ events, v'.log = events ++ v.log ∧ (∀ e ∈ events, e.isTrial = false) ∧
      g'.trying = g.trying) ∨
    (∃ s, v'.log = .retried r s :: v.log ∧ g'.trying = s :: g.trying) ∨
    (∃ s, v'.log = .left r s :: v.log ∧ g.trying = s :: g'.trying) := by
  have hnone : ∀ e ∈ ([] : List Event), e.isTrial = false := List.forall_mem_nil _
  cases h with
  | ambient h =>
    have hsame : g'.trying = g.trying := by rw [Hand.trying, h.hand_eq.1, Hand.trying]
    cases h with
    | create => exact .inl ⟨[_], rfl, by simp [Event.isTrial], hsame⟩
    | say e he => exact .inl ⟨[e], rfl, by simp [he.isTrial], hsame⟩
    | _ => exact .inl ⟨[], rfl, hnone, hsame⟩
  | visit h =>
    have hsame : g'.trying = g.trying := by rw [Hand.trying, h.hand_eq.1, Hand.trying]
    cases h with
    | start | firstPing => exact .inl ⟨[_, _], rfl, by simp [Event.isTrial], hsame⟩
    | flowAgain | ping => exact .inl ⟨[_], rfl, by simp [Event.isTrial], hsame⟩
    | _ => exact .inl ⟨[], rfl, hnone, hsame⟩
  | flushing h =>
    cases h with
    | openOwn | calling | called => exact .inl ⟨[_], rfl, by simp [Event.isTrial], rfl⟩
    | shutLast hq hd hdone ho hb hs ha hcur =>
      refine .inl ⟨[], rfl, hnone, ?_⟩
      rw [Hand.trying_of_top hb, hcur]
      rfl
    | _ => exact .inl ⟨[], rfl, hnone, rfl⟩
  | working h =>
    cases h with
    | begin => exact .inl ⟨[_], rfl, by simp [Event.isTrial], rfl⟩
    | memo => exact .inl ⟨[], rfl, hnone, rfl⟩
    | skip hb hs ha hq hseg hc hcur | attempt hb hs ha hq hseg hc hd hcur =>
      refine .inr (.inl ⟨_, rfl, ?_⟩)
      rw [Hand.trying_of_top hb, hcur]
      rfl
    | leave hb ha hcur =>
      refine .inr (.inr ⟨_, rfl, ?_⟩)
      rw [Hand.trying_of_top hb, hcur]
      rfl
    | finish hb hs ha hq hd hf hcur =>
      refine .inl ⟨[], rfl, hnone, ?_⟩
      rw [Hand.trying_of_top hb, hcur]
      rfl
    | value hb | layer hb | wait hb => exact .inl ⟨[], rfl, hnone, Hand.trying_top_eq hb rfl rfl⟩
    | defer _ hb | complete hb | fail hb =>
      exact .inl ⟨[_], rfl, by simp [Event.isTrial], Hand.trying_top_eq hb rfl rfl⟩
    | report _ hb =>
      exact .inl ⟨[_, _], rfl, by simp [Event.isTrial], Hand.trying_top_eq hb rfl rfl⟩

theorem Course.tryingIn (h : Course W r g v) : Event.tryingIn v.log = g.trying := by
  induction h with
  | start => rfl
  | turn hc ht ih =>
    rcases ht.trials with ⟨events, hlog, he, hsame⟩ | ⟨s, hlog, hmore⟩ | ⟨s, hlog, hless⟩
    · rw [hlog, Event.tryingIn_append he, ih, hsame]
    · rw [hlog, hmore, Event.tryingIn, ih]
    · rw [hlog, Event.tryingIn, ih, hless, List.erase_cons_head]

theorem Turn.apart (h : Turn W r g v g' v') (hapart : v'.Apart) : v.Apart := by
  rw [View.Apart] at hapart ⊢
  rcases h.trials with ⟨events, hlog, he, -⟩ | ⟨s, hlog, -⟩ | ⟨s, hlog, -⟩
  · rwa [hlog, Event.overlaps_append he] at hapart
  · rw [hlog] at hapart
    exact (Bool.or_eq_false_iff.mp hapart).2
  · rwa [hlog] at hapart

theorem Course.nodup_trying (h : Course W r g v) (hapart : v.Apart) : g.trying.Nodup := by
  induction h with
  | start => exact List.nodup_nil
  | turn hc ht ih =>
    have ih := ih (ht.apart hapart)
    rcases ht.trials with ⟨events, hlog, he, hsame⟩ | ⟨s, hlog, hmore⟩ | ⟨s, hlog, hless⟩
    · rwa [hsame]
    · rw [View.Apart, hlog] at hapart
      have hfresh := of_decide_eq_false (Bool.or_eq_false_iff.mp hapart).1
      rw [hc.tryingIn] at hfresh
      rw [hmore]
      exact List.nodup_cons.mpr ⟨hfresh, ih⟩
    · rw [hless] at ih
      exact (List.nodup_cons.mp ih).2

theorem Course.apart (h : Course W r g v) (hcalm : v.Calm r) : v.Apart := by
  induction h with
  | start => rfl
  | @turn g v g' v' hc ht ih =>
    have ih := ih (ht.calm hcalm)
    rcases ht.trials with ⟨events, hlog, he, -⟩ | ⟨s, hlog, hmore⟩ | ⟨s, hlog, -⟩
    · rw [View.Apart, hlog, Event.overlaps_append he]
      exact ih
    · have hlength := List.length_filterMap_le PassState.current g'.passes
      have hone := (hc.turn ht).length_passes hcalm
      rw [← Hand.trying, hmore, List.length_cons] at hlength
      have hnil : g.trying = [] := List.length_eq_zero_iff.mp (by omega)
      rw [View.Apart, hlog, Event.overlaps, hc.tryingIn, hnil]
      exact ih
    · rw [View.Apart, hlog]
      exact ih

/-! ## The attempt under way -/

theorem Course.current (h : Course W r g v) {b : PassState κ} (hb : b ∈ g.passes) {a : Attempt κ}
    (ha : b.attempt = some a) : b.current = some a.segment := by
  induction h generalizing b a with
  | start => cases hb
  | @turn g v g' v' hc ht ih =>
    have htop : ∀ {b₀ bs a₀}, g.passes = b₀ :: bs → b₀.attempt = some a₀ →
        b₀.current = some a₀.segment :=
      fun hp => ih (by rw [hp]; exact List.mem_cons_self)
    have htail : ∀ {b₀ bs}, g.passes = b₀ :: bs → b ∈ bs → b.current = some a.segment :=
      fun hp hb => ih (by rw [hp]; exact List.mem_cons_of_mem _ hb) ha
    cases ht with
    | ambient h => exact ih (h.hand_eq.1 ▸ hb) ha
    | visit h => exact ih (h.hand_eq.1 ▸ hb) ha
    | flushing h =>
      cases h with
      | shutLast hq hd hdone ho hp => exact htail hp hb
      | _ => exact ih hb ha
    | working h =>
      cases h with
      | memo => exact ih hb ha
      | finish hp => exact htail hp hb
      | begin hq =>
        rcases List.mem_cons.mp hb with rfl | hb
        · cases ha
        · exact ih hb ha
      | attempt hp =>
        rcases List.mem_cons.mp hb with rfl | hb
        · cases ha
          rfl
        · exact htail hp hb
      | skip hp hs hn | leave hp hn | wait hp hn | complete hp hn | fail hp hn =>
        rcases List.mem_cons.mp hb with rfl | hb
        · simp_all
        · exact htail hp hb
      | value hp hn | layer hp hn | defer query hp hn | report e hp hn =>
        rcases List.mem_cons.mp hb with rfl | hb
        · cases ha
          have hbefore := htop hp hn
          exact hbefore
        · exact htail hp hb

/-- The innermost pass attempts no segment that an outer one attempts. -/
theorem Course.attempts_ne (h : Course W r g v) (hapart : v.Apart) {b c : PassState κ}
    {bs : List (PassState κ)} (hb : g.passes = b :: bs) (hc : c ∈ bs) {a a' : Attempt κ}
    (ha : b.attempt = some a) (ha' : c.attempt = some a') : a.segment ≠ a'.segment := by
  intro he
  have hcur := h.current (by rw [hb]; exact List.mem_cons_self) ha
  have hcur' := h.current (by rw [hb]; exact List.mem_cons_of_mem _ hc) ha'
  have hnodup := h.nodup_trying hapart
  rw [Hand.trying_of_top hb, hcur, Option.toList_some, List.singleton_append] at hnodup
  exact (List.nodup_cons.mp hnodup).1 (List.mem_filterMap.mpr ⟨c, hc, hcur'.trans (by rw [he])⟩)

theorem Course.attempting (h : Course W r g v) (hapart : v.Apart) {b : PassState κ}
    (hb : b ∈ g.passes) {a : Attempt κ} (ha : b.attempt = some a) :
    ∃ q, v.request = some q ∧ q.HasOpen a.segment := by
  induction h generalizing b a with
  | start => cases hb
  | @turn g v g' v' hc ht ih =>
    have hbefore := ht.apart hapart
    have hkept : ∀ b₀ ∈ g.passes, ∀ a₀, b₀.attempt = some a₀ → a₀.segment = a.segment →
        (∀ b₁ bs a₁, g.passes = b₁ :: bs → b₁.attempt = some a₁ → a₁.segment = a.segment →
          g'.passes ≠ { b₁ with attempt := none } :: bs) →
        ∃ q, v'.request = some q ∧ q.HasOpen a.segment := by
      intro b₀ hb₀ a₀ ha₀ hs hstays
      obtain ⟨q, hq, ho⟩ := ih hbefore hb₀ ha₀
      rw [hs] at ho
      exact ht.hasOpen hq ho hstays
    have hsame : g'.passes = g.passes → ∃ q, v'.request = some q ∧ q.HasOpen a.segment := by
      intro hp
      refine hkept b (hp ▸ hb) a ha rfl fun b₁ bs a₁ hp₁ ha₁ _ he => ?_
      rw [hp, hp₁, List.cons.injEq] at he
      rw [he.1] at ha₁
      cases ha₁
    have htop : ∀ {b₀ bs a₀}, g.passes = b₀ :: bs → g'.passes = b :: bs →
        b₀.attempt = some a₀ → a₀.segment = a.segment →
        ∃ q, v'.request = some q ∧ q.HasOpen a.segment := by
      intro b₀ bs a₀ hp hp' ha₀ hs
      refine hkept b₀ (by rw [hp]; exact List.mem_cons_self) a₀ ha₀ hs fun _ _ _ _ _ _ he => ?_
      rw [hp', List.cons.injEq] at he
      rw [he.1] at ha
      cases ha
    have htail : ∀ {b₀ bs}, g.passes = b₀ :: bs → b ∈ bs →
        ∃ q, v'.request = some q ∧ q.HasOpen a.segment := by
      intro b₀ bs hp hmem
      refine hkept b (by rw [hp]; exact List.mem_cons_of_mem _ hmem) a ha rfl ?_
      intro b₁ bs₁ a₁ hp₁ ha₁ hs
      cases hp.symm.trans hp₁
      exact absurd hs (hc.attempts_ne hbefore hp hmem ha₁ ha)
    cases ht with
    | ambient h => exact hsame h.hand_eq.1
    | visit h => exact hsame h.hand_eq.1
    | flushing h =>
      cases h with
      | shutLast hq hd hdone ho hp => exact htail hp hb
      | _ => exact hsame rfl
    | working h =>
      cases h with
      | memo => exact hsame rfl
      | finish hp => exact htail hp hb
      | begin hq =>
        rcases List.mem_cons.mp hb with rfl | hb
        · cases ha
        · refine hkept b hb a ha rfl fun b₁ bs a₁ hp₁ _ _ he => ?_
          rw [hp₁, List.cons.injEq] at he
          exact List.cons_ne_self _ _ he.2
      | attempt hp hs hn hq hseg hcompleted =>
        rcases List.mem_cons.mp hb with rfl | hb
        · cases ha
          exact ⟨_, hq, _, hseg, hcompleted⟩
        · exact htail hp hb
      | skip hp hs hn | leave hp hn | wait hp hn | complete hp hn | fail hp hn =>
        rcases List.mem_cons.mp hb with rfl | hb
        · simp_all
        · exact htail hp hb
      | value hp hn | layer hp hn | defer query hp hn | report e hp hn =>
        rcases List.mem_cons.mp hb with rfl | hb
        · cases ha
          exact htop hp rfl hn rfl
        · exact htail hp hb

end TreeStream
