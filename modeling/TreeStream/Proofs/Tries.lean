import TreeStream.Proofs.Accounting

/-!
# The tries that a log tells of

A pass tries segments one after the other, and every id but the first is given out while some
segment is tried. So the tries cut the ids of a log into slices that follow each other.
-/

namespace TreeStream

variable {κ : Type}

/-- One try of a segment: how many ids were given out before it, and those given out by it. -/
structure Try where
  segment : SegmentId
  before : Nat
  issued : List RowId

def Try.after (t : Try) : Nat := t.before + t.issued.length

def Event.triedSegment? : Event → Option SegmentId
  | retried _ s => some s
  | _ => none

def Event.tries : List Event → List Try
  | [] => []
  | .retried _ s :: log => ⟨s, (issuedIn log).length, []⟩ :: tries log
  | .issued _ id :: log =>
    match tries log with
    | [] => []
    | t :: ts => { t with issued := t.issued ++ [id] } :: ts
  | _ :: log => tries log

namespace Event

theorem tries_quiet {e : Event} (hi : e.issuedId? = none) (ht : e.triedSegment? = none)
    (log : List Event) : tries (e :: log) = tries log := by
  cases e with
  | issued r id => cases hi
  | retried r s => cases ht
  | _ => rfl

theorem tries_issued (r : RequestId) (id : RowId) {log : List Event} {t : Try} {ts : List Try}
    (h : tries log = t :: ts) :
    tries (.issued r id :: log) = { t with issued := t.issued ++ [id] } :: ts := by
  rw [tries, h]

end Event

/-- The ids are those given out before the oldest of the tries, followed by those of each try. -/
inductive Try.Slices : List RowId → List Try → Prop
  | nil (ids : List RowId) : Slices ids []
  | cons {ids : List RowId} {t : Try} {ts : List Try} (h : Slices ids ts)
    (hb : t.before = ids.length) : Slices (ids ++ t.issued) (t :: ts)

theorem Event.slices_tries (log : List Event) : Try.Slices (issuedIn log) (tries log) := by
  induction log with
  | nil => exact .nil _
  | cons e log ih =>
    cases he : e.issuedId? with
    | none =>
      rw [issuedIn_quiet he]
      cases e with
      | retried r s =>
        have := Try.Slices.cons (t := ⟨s, (issuedIn log).length, []⟩) ih rfl
        rwa [List.append_nil] at this
      | issued r id => cases he
      | _ => exact ih
    | some id =>
      cases e with
      | issued r id' =>
        cases he
        rw [issuedIn_cons]
        cases ht : tries log with
        | nil =>
          rw [tries, ht]
          exact .nil _
        | cons t ts =>
          rw [tries_issued r id ht]
          rw [ht] at ih
          generalize issuedIn log = ids at ih
          cases ih with
          | cons h hb =>
            rw [List.append_assoc]
            exact Try.Slices.cons (t := { t with issued := t.issued ++ [id] }) h hb
      | _ => cases he

namespace Try.Slices

variable {ids : List RowId} {t : Try} {ts : List Try}

theorem exists_eq (h : Slices ids ts) (ht : t ∈ ts) :
    ∃ l l', ids = l ++ t.issued ++ l' ∧ l.length = t.before := by
  induction h with
  | nil => cases ht
  | @cons ids t' ts h hb ih =>
    rcases List.mem_cons.mp ht with rfl | ht
    · exact ⟨ids, [], (List.append_nil _).symm, hb.symm⟩
    · obtain ⟨l, l', rfl, hl⟩ := ih ht
      exact ⟨l, l' ++ t'.issued, by simp, hl⟩

theorem after_le (h : Slices ids ts) (ht : t ∈ ts) : t.after ≤ ids.length := by
  obtain ⟨l, l', rfl, hl⟩ := h.exists_eq ht
  simp only [Try.after, List.length_append]
  omega

/-- Newer tries begin where older ones have ended, or later. -/
theorem pairwise (h : Slices ids ts) : ts.Pairwise fun t t' => t'.after ≤ t.before := by
  induction h with
  | nil => exact .nil
  | cons h hb ih => exact .cons (fun t' ht' => hb ▸ h.after_le ht') ih

/-- Ids that are given out in order are given out in order by each try. -/
theorem issued_eq (h : Slices ids ts) (hids : ids = RowId.enumerate (.ofNat 0) ids.length)
    (ht : t ∈ ts) : t.issued = RowId.enumerate (.ofNat t.before) t.issued.length := by
  obtain ⟨l, l', hl, hlength⟩ := h.exists_eq ht
  rw [hl, List.length_append, List.length_append, RowId.enumerate_add, RowId.enumerate_add,
    Nat.zero_add, hlength] at hids
  have hfirst := List.append_inj_left hids (by simp [RowId.length_enumerate, hlength])
  exact List.append_inj_right hfirst (by simp [RowId.length_enumerate, hlength])

section

variable (h : Slices ids ts) (hids : ids = RowId.enumerate (.ofNat 0) ids.length)
  (hlt : ids.length < 2 ^ 32)

include h hids hlt

/-- A try gives out the ids from the number of ids before it to the number of ids after it. -/
theorem count_issued (ht : t ∈ ts) (id : RowId) :
    t.issued.count id = if t.before ≤ id.toNat ∧ id.toNat < t.after then 1 else 0 := by
  have hle : t.before + t.issued.length ≤ 2 ^ 32 :=
    Nat.le_of_lt (Nat.lt_of_le_of_lt (h.after_le ht) hlt)
  have hcount := RowId.count_enumerate hle id
  rwa [← h.issued_eq hids ht] at hcount

theorem bounds_of_mem (ht : t ∈ ts) {id : RowId} (hi : id ∈ t.issued) :
    t.before ≤ id.toNat ∧ id.toNat < t.after := by
  by_contra hout
  have hcount := h.count_issued hids hlt ht id
  rw [if_neg hout, List.count_eq_zero] at hcount
  exact hcount hi

theorem nodup_issued (ht : t ∈ ts) : t.issued.Nodup := by
  rw [h.issued_eq hids ht]
  exact RowId.nodup_enumerate (Nat.le_of_lt (Nat.lt_of_le_of_lt (h.after_le ht) hlt))

theorem eq_of_mem_issued {t' : Try} (ht : t ∈ ts) (ht' : t' ∈ ts) {id : RowId}
    (hi : id ∈ t.issued) (hi' : id ∈ t'.issued) : t = t' := by
  have hbounds := h.bounds_of_mem hids hlt ht hi
  have hbounds' := h.bounds_of_mem hids hlt ht' hi'
  obtain ⟨m, hm, rfl⟩ := List.mem_iff_getElem.mp ht
  obtain ⟨n, hn, rfl⟩ := List.mem_iff_getElem.mp ht'
  have hapart := List.pairwise_iff_getElem.mp h.pairwise
  rcases Nat.lt_trichotomy m n with hlt | rfl | hgt
  · have := hapart m n hm hn hlt
    omega
  · rfl
  · have := hapart n m hn hm hgt
    omega

end

end Try.Slices
end TreeStream
