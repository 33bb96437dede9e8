import TreeStream.Proofs.Faithfulness

/-!
# Waiting does not show

The rows of a closed request are put together again from row 0 on, each reference replaced by the
row it leads to. For a model whose code is pure the tree that comes out is that of the one row which
the model is rendered to where all promises are fulfilled from the start. So it depends neither on
the order in which promises are settled nor on when passes run.
-/

namespace TreeStream

variable {κ σ : Type} {W : World κ} {M : Meaning κ} {waits : Prop} {r : RequestId}
  {modules : ModuleSource κ} {model : Model κ} {tree : RowTree} {g g' : Hand κ} {v v' : View κ}
  {q q' : Request κ}

/-! ## The ids of segments -/

def Request.ids (q : Request κ) : List RowId := q.segments.toList.map Segment.id

theorem Request.getElem?_ids {s : SegmentId} {seg : Segment κ}
    (h : q.segments[s.index]? = some seg) : q.ids[s.index]? = some seg.id := by
  simp [ids, h]

theorem Request.ids_modify {i : Nat} {f : Segment κ → Segment κ} (hf : ∀ seg, (f seg).id = seg.id)
    (h : q'.segments = q.segments.modify i f) : q'.ids = q.ids := by
  apply List.ext_getElem?
  intro j
  simp only [ids, h, List.getElem?_map, Array.getElem?_toList, Array.getElem?_modify]
  split
  · cases q.segments[j]? <;> simp [hf]
  · rfl

theorem Turn.ids_sublist (h : Turn W r g v g' v') (hq : v.request = some q)
    (hq' : v'.request = some q') (ih : q.ids.Sublist (Event.issuedIn v.log)) :
    q'.ids.Sublist (Event.issuedIn v'.log) := by
  have hsame (hids : q'.ids = q.ids) : q'.ids.Sublist (Event.issuedIn v'.log) := by
    obtain ⟨events, hlog⟩ := h.log
    rw [hids, hlog, Event.issuedIn_append]
    exact ih.trans (List.sublist_append_left _ _)
  have hkept (hk : ∃ q', v'.request = some q' ∧ q.Keeps q') : q'.ids = q.ids := by
    obtain ⟨q₁, hq₁, hkeeps⟩ := hk
    cases hq'.symm.trans hq₁
    rw [Request.ids, hkeeps.segments]
    rfl
  cases h with
  | ambient h => exact hsame (hkept (h.keeps hq))
  | visit h => exact hsame (hkept (h.keeps hq))
  | flushing h => exact hsame (hkept (h.keeps hq))
  | working h =>
    cases h with
    | skip | attempt | leave | value | layer | wait | finish =>
      cases hq.symm.trans hq'
      exact hsame rfl
    | begin hq₀ | report e hb ha hv hq₀ =>
      cases hq.symm.trans hq₀
      cases hq'
      exact hsame rfl
    | @memo _ b bs a e hb ha hv hq₀ =>
      cases hq.symm.trans hq₀
      cases hq'
      exact hsame (Request.ids_modify (f := fun seg => { seg with query := .model (.element e) })
        (fun seg => rfl) rfl)
    | complete hb ha hv hw hq₀ | fail hb ha hw hq₀ =>
      cases hq.symm.trans hq₀
      cases hq'
      exact hsame (Request.ids_modify (f := fun seg => { seg with completed := true })
        (fun seg => rfl) rfl)
    | defer query hb ha hv hq₀ =>
      cases hq.symm.trans hq₀
      cases hq'
      rw [Event.issuedIn_cons, Request.ids, Array.toList_push, List.map_append]
      exact ih.append (.refl _)

/-- Segments have different ids, in the order in which these were given out. -/
theorem Course.ids_sublist (h : Course W r g v) (hq : v.request = some q) :
    q.ids.Sublist (Event.issuedIn v.log) := by
  refine Course.induct (P := fun _ v q => q.ids.Sublist (Event.issuedIn v.log)) ?_
    (fun _ ht hq hq' ih => ht.ids_sublist hq hq' ih) h hq
  intro g v settings model hnew
  obtain ⟨log, hlog, hasides⟩ := hnew.log
  rw [hlog, Event.issuedIn_cons, (Event.IsAside.quiets hasides).1]
  exact .refl _

/-- If segments have different ids, each id can be read as what its segment comes to. -/
theorem Request.exists_fits (hids : q.ids.Nodup)
    (h : ∀ s : SegmentId, s.index < q.segments.size → ∃ tree, q.ComesTo M modules s tree) :
    ∃ D, q.Fits M modules D := by
  suffices hread : ∀ id, ∃ tree, ∀ (s : SegmentId) (seg : Segment κ),
      q.segments[s.index]? = some seg → seg.id = id → M.Yields modules seg.query tree by
    choose D hD using hread
    exact ⟨D, fun s seg hseg => hD seg.id s seg hseg rfl⟩
  intro id
  by_cases hid : ∃ s : SegmentId, ∃ seg, q.segments[s.index]? = some seg ∧ seg.id = id
  · obtain ⟨s, seg, hseg, rfl⟩ := hid
    obtain ⟨hlt, -⟩ := Array.getElem?_eq_some_iff.mp hseg
    obtain ⟨tree, seg₁, hseg₁, hyields⟩ := h s hlt
    cases hseg.symm.trans hseg₁
    refine ⟨tree, fun s' seg' hseg' hsame => ?_⟩
    have hindex : s.index = s'.index := by
      apply (List.getElem?_inj (by simpa [ids] using hlt) hids).mp
      rw [getElem?_ids hseg, getElem?_ids hseg', hsame]
    rw [hindex] at hseg
    cases hseg.symm.trans hseg'
    exact hyields
  · exact ⟨.array [], fun s seg hseg hsame => absurd ⟨s, seg, hseg, hsame⟩ hid⟩

/-! ## Putting rows together -/

/-- The tree of a row with each reference replaced by what the row it leads to is put together to.
References are followed `n` deep at most. -/
def assemble (rows : List Row) : Nat → RowId → Option RowTree
  | 0, _ => none
  | n + 1, id => (rows.find? fun row => row.id = id).bind fun row =>
    row.tree?.bind fun tree => tree.fill? (assemble rows n)

theorem Row.references_of_tree? {row : Row} (h : row.tree? = some tree) :
    row.references = tree.references := by
  unfold tree? at h
  unfold references
  cases hkind : row.kind with
  | model =>
    rw [hkind] at h
    simp only [show RowTree.read? row.body = some tree from h, Option.map_some, Option.getD_some]
  | error =>
    rw [hkind] at h
    cases h

/-- Rows that lead to later rows only are put together to what their ids are read as. -/
theorem assemble_eq {rows : List Row} {ids : List RowId} {D : RowId → RowTree}
    (hids : ∀ id ∈ ids, id.toNat < ids.length ∧ ∃ row ∈ rows, row.id = id)
    (hrows : ∀ row ∈ rows, ∃ tree, row.tree? = some tree ∧
      tree.fill? (fun id => some (D id)) = some (D row.id) ∧
      ∀ id ∈ tree.references, row.id.toNat < id.toNat ∧ id ∈ ids)
    (n : Nat) {id : RowId} (hid : id ∈ ids) (hn : ids.length ≤ n + id.toNat) :
    assemble rows n id = some (D id) := by
  induction n generalizing id with
  | zero =>
    have := (hids id hid).1
    omega
  | succ n ih =>
    obtain ⟨row₀, hrow₀, hsame₀⟩ := (hids id hid).2
    obtain ⟨row, hfind⟩ := Option.isSome_iff_exists.mp
      (List.find?_isSome (p := fun row => decide (row.id = id)).mpr
        ⟨row₀, hrow₀, decide_eq_true hsame₀⟩)
    have hsame : row.id = id := by simpa using List.find?_some hfind
    obtain ⟨tree, htree, hfill, hlater⟩ := hrows row (List.mem_of_find?_eq_some hfind)
    rw [assemble, hfind, Option.bind_some, htree, Option.bind_some, ← hsame, ← hfill]
    apply RowTree.fill?_congr
    intro id' hi
    obtain ⟨hlt, hmem⟩ := hlater id' hi
    rw [hsame] at hlt
    exact ih hmem (by omega)

/-- The rows of a closed request are those that were handed over, one for each id. -/
theorem Course.handed_perm (h : Course W r {} v) (hcalm : v.Calm r) (hq : v.request = some q)
    (hclosed : q.closed = true) :
    rowsOf {} v.log q = Event.handedIn v.log ∧
      ((Event.handedIn v.log).map Row.id).Perm (Event.issuedIn v.log) := by
  have hb := h.balanced (h.apart hcalm) hq
  obtain ⟨hopened, hqueued⟩ := hb.empty_of_closed hclosed
  have hperm := hb.perm
  rw [hopened, hqueued] at hperm
  refine ⟨?_, hperm⟩
  rw [rowsOf, show q.queued = [] from hqueued]
  rfl

/-- The rows of a closed request over a pure model are put together to the tree of the model. -/
theorem Course.assembles (h : Course (M.world waits r modules model) r {} v) (hcalm : v.Calm r)
    (hq : v.request = some q) (hclosed : q.closed = true)
    (hids : (Event.issuedIn v.log).length < 2 ^ 32)
    (hmodel : M.Yields modules (.model model) tree) :
    assemble (Event.handedIn v.log) (Event.handedIn v.log).length (.ofNat 0) = some tree := by
  obtain ⟨hrows, hperm⟩ := h.handed_perm hcalm hq hclosed
  have hfaithful : Faithful M modules tree none (rowsOf {} v.log q) q :=
    h.faithful hcalm hq hmodel
  have hissued : Event.issuedIn v.log =
      RowId.enumerate (.ofNat 0) (Event.issuedIn v.log).length := (h.balanced (h.apart hcalm) hq).issued
  have hbound : 0 + (Event.issuedIn v.log).length ≤ 2 ^ 32 := by omega
  have hnodup : (Event.issuedIn v.log).Nodup := by
    rw [hissued]
    exact RowId.nodup_enumerate hbound
  obtain ⟨D, hfits⟩ := Request.exists_fits (hnodup.sublist (h.ids_sublist hq)) fun s hs =>
    (hfaithful.known s hs).resolve_right fun ⟨id, query, hi⟩ => nomatch hi
  obtain ⟨root, hroot, hrootId, hyields⟩ := hfaithful.root
  have hzero : D (.ofNat 0) = tree := by
    rw [← hrootId]
    exact (hfits ⟨0⟩ root hroot).unique hyields
  rw [← hzero]
  have hmem : RowId.ofNat 0 ∈ Event.issuedIn v.log := by
    rw [← hrootId]
    exact (h.ids_sublist hq).subset (List.mem_of_getElem? (Request.getElem?_ids (s := ⟨0⟩) hroot))
  have hplaces : ∀ id ∈ Event.issuedIn v.log, id.toNat < (Event.issuedIn v.log).length ∧
      ∃ row ∈ Event.handedIn v.log, row.id = id := by
    intro id hi
    refine ⟨?_, List.mem_map.mp (hperm.mem_iff.mpr hi)⟩
    rw [hissued, RowId.mem_enumerate hbound] at hi
    omega
  have hstand : ∀ row ∈ Event.handedIn v.log, ∃ tree, row.tree? = some tree ∧
      tree.fill? (fun id => some (D id)) = some (D row.id) ∧
      ∀ id ∈ tree.references, row.id.toNat < id.toNat ∧ id ∈ Event.issuedIn v.log := by
    intro row hrow
    rw [← hrows] at hrow
    obtain ⟨tree', htree, hstands⟩ := (hfaithful.rows row hrow).resolve_right
      fun ⟨e, hi⟩ => nomatch hi
    refine ⟨tree', htree, hstands D hfits, fun id hi => ?_⟩
    rw [← Row.references_of_tree? htree] at hi
    exact h.lt_of_mem_references hcalm hq hids hrow hi
  have hlength := hperm.length_eq
  rw [List.length_map] at hlength
  exact assemble_eq hplaces hstand _ hmem (hlength ▸ Nat.le_add_right _ _)

/-! ## Where nothing waits -/

theorem map_issuesOf_append (a : Attempt κ) (i : Issue κ) :
    (issuesOf (some { a with issues := a.issues ++ [i] })).map Issue.id =
      (issuesOf (some a)).map Issue.id ++ [i.id] :=
  List.map_append

theorem Working.single (h : Working (M.world waits r modules model) r g v g' v') (hw : ¬ waits)
    (hq : v.request = some q) (hf : Faithful M modules tree g.attempt? (rowsOf g v.log q) q)
    (hbegin : 0 < g.fresh → v'.log = .began r (decide (1 < q.running)) :: v.log → g.passes = [])
    (hlone : ∀ {b bs}, g.passes = b :: bs → bs = [])
    (hmodules : ∀ {b bs}, g.passes = b :: bs → b.modules = q.settings.modules)
    (ih : Event.issuedIn v.log = .ofNat 0 :: (issuesOf g.attempt?).map Issue.id) :
    Event.issuedIn v'.log = .ofNat 0 :: (issuesOf g'.attempt?).map Issue.id := by
  cases h with
  | begin hq₀ hm hfresh =>
    cases hq.symm.trans hq₀
    rw [Hand.attempt?, hbegin hfresh rfl] at ih
    rw [Event.issuedIn_quiet rfl]
    exact ih
  | skip hb | leave hb =>
    rw [attempt?_top hb] at ih
    rw [Event.issuedIn_quiet rfl]
    exact ih
  | attempt hb hs ha =>
    rw [attempt?_top hb, ha] at ih
    rw [Event.issuedIn_quiet rfl]
    exact ih
  | value hb ha | layer hb ha =>
    rw [attempt?_top hb, ha] at ih
    exact ih
  | memo => exact ih
  | @wait b bs a hb ha hi =>
    rw [attempt?_top hb, ha, show issuesOf (some a) = [] from hi] at ih
    exact ih
  | @defer _ b bs a query hb ha hv hq₀ =>
    cases hq.symm.trans hq₀
    rw [attempt?_top hb, ha] at ih
    rw [Event.issuedIn_cons, ih]
    exact congrArg (RowId.ofNat 0 :: ·)
      (map_issuesOf_append a (.segment ⟨q.segments.size⟩ q.nextId query)).symm
  | @report _ b bs a e hb ha hv hq₀ =>
    cases hq.symm.trans hq₀
    rw [attempt?_top hb, ha] at ih
    rw [Event.issuedIn_quiet rfl, Event.issuedIn_cons, ih]
    exact congrArg (RowId.ofNat 0 :: ·) (map_issuesOf_append a (.error q.nextId e)).symm
  | @complete _ b bs a seg strict depth value json hb ha hv hwritten hq₀ hseg =>
    cases hq.symm.trans hq₀
    rw [attempt?_top hb, ha] at ih hf
    rw [hmodules hb, hf.source] at hwritten
    have hnone : issuesOf (some a) = [] :=
      List.eq_nil_iff_forall_not_mem.mpr fun i hi =>
        hw ((hf.completed rfl hv hwritten hseg).1 i hi).1
    rw [hnone] at ih
    rw [Event.issuedIn_quiet rfl]
    exact ih
  | @fail _ b bs a seg e hb ha hfails =>
    rw [attempt?_top hb, ha] at hf
    obtain ⟨tree', -, hreaches⟩ := hf.trying a rfl
    rw [hmodules hb, hf.source] at hfails
    exact absurd hfails hreaches.not_fails
  | finish hb hs ha =>
    rw [attempt?_top hb, ha] at ih
    rw [Hand.attempt?, hlone hb]
    exact ih

/-- Where nothing waits no row but the first is issued outside the attempt under way. -/
theorem Course.single (h : Course (M.world waits r modules model) r g v) (hw : ¬ waits)
    (hcalm : v.Calm r) (hq : v.request = some q) (hmodel : M.Yields modules (.model model) tree) :
    Event.issuedIn v.log = .ofNat 0 :: (issuesOf g.attempt?).map Issue.id := by
  refine Course.induct (P := fun g v q => v.Calm r →
    Event.issuedIn v.log = .ofNat 0 :: (issuesOf g.attempt?).map Issue.id) ?_ ?_ h hq hcalm
  · intro g v settings model' hnew _
    obtain ⟨log, hlog, hasides⟩ := hnew.log
    rw [hlog, Event.issuedIn_cons, (Event.IsAside.quiets hasides).1, Hand.attempt?, hnew.passes]
    rfl
  · intro g v g' v' q q' hc ht hq hq' ih hcalm
    have hbefore := ht.calm hcalm
    have ih := ih hbefore
    rcases ht.still_or_working hc hcalm hq hq' with ⟨-, hattempt, hstill⟩ | ht
    · rwa [hattempt, hstill.issued]
    · exact ht.single hw hq (hc.faithful hbefore hq hmodel)
        (fun hfresh hlog => hc.passes_of_began hq hfresh hcalm hlog) (hc.passes_eq hbefore)
        (fun hb => (hc.coherent.fits_top hb hq).modules) ih

/-- Where nothing waits a closed request has written one row, which is the tree of the model. -/
theorem Course.writes_single (h : Course (M.world waits r modules model) r {} v) (hw : ¬ waits)
    (hcalm : v.Calm r) (hq : v.request = some q) (hclosed : q.closed = true)
    (hmodel : M.Yields modules (.model model) tree) :
    ∃ row, Event.handedIn v.log = [row] ∧ row.id = .ofNat 0 ∧ row.tree? = some tree ∧
      tree.references = [] := by
  have hissued : Event.issuedIn v.log = [.ofNat 0] := h.single hw hcalm hq hmodel
  have hids : (Event.issuedIn v.log).length < 2 ^ 32 := by
    rw [hissued]
    decide
  obtain ⟨hrows, hperm⟩ := h.handed_perm hcalm hq hclosed
  rw [hissued, List.perm_singleton] at hperm
  obtain ⟨row, hhanded, hid⟩ := List.map_eq_singleton_iff.mp hperm
  have hassembles := h.assembles hcalm hq hclosed hids hmodel
  rw [hhanded, List.length_singleton, assemble, List.find?_singleton,
    if_pos (decide_eq_true hid), Option.bind_some] at hassembles
  obtain ⟨tree', htree, hfill⟩ := Option.bind_eq_some_iff.mp hassembles
  have hnone : tree'.references = [] := by
    apply List.eq_nil_iff_forall_not_mem.mpr
    intro id hi
    rw [← Row.references_of_tree? htree] at hi
    have hrow : row ∈ rowsOf {} v.log q := by
      rw [hrows, hhanded]
      exact List.mem_singleton_self row
    obtain ⟨hlt, hmem⟩ := h.lt_of_mem_references hcalm hq hids hrow hi
    rw [hissued, List.mem_singleton] at hmem
    rw [hid, hmem] at hlt
    exact Nat.lt_irrefl _ hlt
  rw [RowTree.fill?_of_references_eq_nil hnone] at hfill
  cases hfill
  exact ⟨row, hhanded, hid, htree, hnone⟩

namespace Host

/-! ## Sessions -/

/-- A session, whose scripts make calls of `may` only, has closed a request over the model. All
promises that the meaning tells of and that are settled are fulfilled, no pass was nested, and ids
have not run out. -/
structure Completes (M : Meaning κ) (user : UserCode κ σ) (may : HostCall κ → Prop)
    (r : RequestId) (modules : ModuleSource κ) (model : Model κ) (h : Host κ σ) : Prop where
  reached : ∃ start outcomes, Relation.ReflTransGen
    (fun h h' => Step user may h h' ∧ MakesOf r modules model h h') (fresh start outcomes) h
  fulfilled : ∀ p outcome, outcomeOf h.promises p = some outcome → M.Fulfils p outcome
  unnested : h.Unnested r
  few : (h.issued r).length < 2 ^ 32
  closed : ∃ q, h.requests[r.index]? = some q ∧ q.closed = true

/-- The request has taken a course in the world of the meaning. -/
theorem Completes.course {user : UserCode κ σ} {may : HostCall κ → Prop} {h : Host κ σ}
    (hdone : Completes M user may r modules model h) (huser : user.Means M)
    (hwaits : waits ∨ user.MakesNoPromise) (hmay : ∀ c, may c → waits ∨ c.MakesNoPromise) :
    Course (M.world waits r modules model) r {} (h.view r) := by
  obtain ⟨start, outcomes, hsteps⟩ := hdone.reached
  refine course_of_steps (huser.keepsTo hwaits)
    (Relation.ReflTransGen.mono (fun h h' hstep => ⟨hstep.1.mono hmay, ?_⟩) _ _ hsteps)
    hdone.fulfilled r
  rintro r' settings model' hnone hmade rfl
  exact hstep.2 hnone settings model' hmade

/-- If pure code gives its values once the promises that it waits for are fulfilled, there is one
tree for the model: whatever closes a request over it, with promises settled and passes run in any
order, the rows handed over are put together to this tree; and where all promises are settled
from the start, the one row handed over is this tree. -/
theorem suspension_transparent (M : Meaning κ) {modules : ModuleSource κ} {model : Model κ}
    (hmodel : ∃ j, M.Renders modules model j) :
    ∃ tree,
      (∀ (σ : Type) (user : UserCode κ σ) (h : Host κ σ) (r : RequestId), user.Means M →
        Completes M user (fun _ => True) r modules model h →
        assemble (h.handed r) (h.handed r).length (.ofNat 0) = some tree) ∧
      ∀ (σ : Type) (user : UserCode κ σ) (h : Host κ σ) (r : RequestId), user.Means M →
        user.MakesNoPromise → Completes M user HostCall.MakesNoPromise r modules model h →
        ∃ row, h.handed r = [row] ∧ row.id = .ofNat 0 ∧ row.tree? = some tree ∧
          tree.references = [] := by
  obtain ⟨j, hj⟩ := hmodel
  refine ⟨RowTree.ofJson (Serializer.orNull j), ?_, ?_⟩
  · intro σ user h r huser hdone
    obtain ⟨q, hq, hclosed⟩ := hdone.closed
    have hcourse : Course (M.world True r modules model) r {} (h.view r) :=
      hdone.course huser (.inl trivial) fun _ _ => .inl trivial
    exact hcourse.assembles hdone.unnested.calm (q := q) hq hclosed hdone.few
      (Meaning.yields_model hj)
  · intro σ user h r huser hno hdone
    obtain ⟨q, hq, hclosed⟩ := hdone.closed
    have hcourse : Course (M.world False r modules model) r {} (h.view r) :=
      hdone.course huser (.inr hno) fun _ hc => .inr hc
    exact hcourse.writes_single id hdone.unnested.calm (q := q) hq hclosed
      (Meaning.yields_model hj)

/-- What a play is seen to lead to is reached, with its request made as it is played. -/
theorem exists_of_play (user : UserCode κ σ) {may : HostCall κ → Prop} {start : σ}
    {outcomes : Array (Outcome κ)} {settings : RequestSettings κ} {model : Model κ}
    {script : Script κ σ Unit} (hs : script.Makes may) {n : Nat}
    (p : Host κ σ → Request κ → Bool)
    (hp : (play user start outcomes settings model script n).any
      (fun h => h.requests[0]?.any (p h)) = true) :
    ∃ h q, (∃ start outcomes, Relation.ReflTransGen
        (fun h h' => Step user may h h' ∧ MakesOf ⟨0⟩ settings.modules model h h')
        (fresh start outcomes) h) ∧
      h.requests[0]? = some q ∧ p h q = true := by
  obtain ⟨h, hplay, hany⟩ := (Option.any_eq_true _ _).mp hp
  obtain ⟨q, hq, hpq⟩ := (Option.any_eq_true _ _).mp hany
  exact ⟨h, q, ⟨start, outcomes, steps_of_play hs hplay⟩, hq, hpq⟩

end Host

namespace Late

/-- The late component renders to what the promise is fulfilled with. -/
def meaning : Meaning Unit where
  fate _ := some (.string "done")
  render _ _ := some (.string "done")
  load _ := some .null
  metadata _ _ := none

theorem user_means : user.Means meaning where
  render _ _ value hvalue := by
    cases hvalue
    refine ⟨trivial, fun status hstatus => ?_⟩
    cases status with
    | pending => exact .inr ⟨.inr rfl, _, rfl⟩
    | settled outcome =>
      cases hstatus _ rfl
      exact .inl rfl
  load _ value hvalue := by
    cases hvalue
    exact .inl rfl
  source _ _ _ hjson := nomatch hjson
  manifest _ _ _ hjson := nomatch hjson

theorem user_makesNoPromise : user.MakesNoPromise where
  render _ _ _ := ⟨trivial, fun _ _ => trivial⟩
  load _ := trivial
  toModel _ := trivial
  await _ _ _ := trivial
  react _ := trivial
  metadata _ _ := trivial
  destination _ _ := trivial

theorem model_renders : ∃ j, meaning.Renders settings.modules Late.model j := by
  have hlayer : meaning.RendersIn settings.modules 2
      (.element { renderable := .function "Late" ⟨(), .empty⟩, key := none, props := .empty })
      (some (.string (RowToken.escape "done"))) :=
    .layer rfl (.leaf (.string "done")) fun _ => rfl
  exact ⟨_, 3, .array (.cons hlayer .nil)⟩

def atOnce : Script Unit Unit Unit :=
  .call (.startWork ⟨0⟩) fun _ => .call .runUntilIdle fun _ => .done ()

theorem atOnce_makes : atOnce.Makes HostCall.MakesNoPromise :=
  ⟨trivial, fun _ _ => ⟨trivial, fun _ _ => trivial⟩⟩

def isDone (cell : PromiseCell Unit) : Bool :=
  match cell.status with
  | .settled (.ok (.string text)) => text = "done"
  | _ => false

theorem fulfils_of_isDone {h : Host Unit Unit} (hall : h.promises.all isDone = true) :
    ∀ p outcome, outcomeOf h.promises p = some outcome → meaning.Fulfils p outcome := by
  intro p outcome ho value hvalue
  cases hvalue
  obtain ⟨cell, hcell, hstatus⟩ := Option.bind_eq_some_iff.mp ho
  have hdone := Array.all_eq_true'.mp hall cell (Array.mem_of_getElem? hcell)
  unfold isDone at hdone
  split at hdone
  · rename_i text hcell
    rw [hcell] at hstatus
    cases hstatus
    rw [of_decide_eq_true hdone]
  · cases hdone

end Late

namespace Host

/-- The late component is handed over in a row of its own, or in the first row where the promise is
fulfilled already, and the two rows are put together to the one. -/
theorem suspension_transparent_late :
    ∃ h h' : Host Unit Unit,
      Completes Late.meaning Late.user (fun _ => True) ⟨0⟩ Late.settings.modules Late.model h ∧
      Completes Late.meaning Late.user HostCall.MakesNoPromise ⟨0⟩ Late.settings.modules
        Late.model h' ∧
      (h.handed ⟨0⟩).map Row.body = ["[\"$1\"]", "\"done\""] ∧
      (h'.handed ⟨0⟩).map Row.body = ["[\"done\"]"] ∧
      ∃ row tree, h'.handed ⟨0⟩ = [row] ∧ row.tree? = some tree ∧
        assemble (h.handed ⟨0⟩) (h.handed ⟨0⟩).length (.ofNat 0) = some tree := by
  have hwhole : Late.whole.Makes fun _ => True :=
    Late.whole_makes.imp (fun _ _ => trivial) (fun _ _ ha => ha) fun _ ha => ha
  obtain ⟨h, q, hr, hq, hp⟩ := exists_of_play (n := 20) Late.user hwhole
    (fun h q => decide (h.Unnested ⟨0⟩ ∧ h.issued ⟨0⟩ = [RowId.ofNat 0, RowId.ofNat 1] ∧
      q.closed = true ∧ h.promises.all Late.isDone = true ∧
      (h.handed ⟨0⟩).map Row.body = ["[\"$1\"]", "\"done\""]))
    (by decide +kernel :
      (play Late.user () #[] Late.settings Late.model Late.whole 20).any _ = true)
  obtain ⟨hu, hissued, hclosed, hdone, hbodies⟩ := of_decide_eq_true hp
  obtain ⟨h', q', hr', hq', hp'⟩ := exists_of_play (n := 20) Late.user Late.atOnce_makes
    (fun h q => decide (h.Unnested ⟨0⟩ ∧ h.issued ⟨0⟩ = [RowId.ofNat 0] ∧
      q.closed = true ∧ h.promises.all Late.isDone = true ∧
      (h.handed ⟨0⟩).map Row.body = ["[\"done\"]"]))
    (by decide +kernel : (play Late.user () #[.ok (.string "done")] Late.settings Late.model
      Late.atOnce 20).any _ = true)
  obtain ⟨hu', hissued', hclosed', hdone', hbodies'⟩ := of_decide_eq_true hp'
  have hopen : Completes Late.meaning Late.user (fun _ => True) ⟨0⟩ Late.settings.modules
      Late.model h :=
    ⟨hr, Late.fulfils_of_isDone hdone, hu, by rw [hissued]; decide, q, hq, hclosed⟩
  have hsettled : Completes Late.meaning Late.user HostCall.MakesNoPromise ⟨0⟩
      Late.settings.modules Late.model h' :=
    ⟨hr', Late.fulfils_of_isDone hdone', hu', by rw [hissued']; decide, q', hq', hclosed'⟩
  obtain ⟨tree, hassembles, hsingle⟩ :=
    suspension_transparent Late.meaning Late.model_renders
  obtain ⟨row, hrow, -, htree, -⟩ :=
    hsingle Unit Late.user h' ⟨0⟩ Late.user_means Late.user_makesNoPromise hsettled
  exact ⟨h, h', hopen, hsettled, hbodies, hbodies', row, tree, hrow, htree,
    hassembles Unit Late.user h ⟨0⟩ Late.user_means hopen⟩

end Host
end TreeStream
