import TreeStream.Proofs.Pouring

/-!
# Passes, the driver and the consumer of a stream

Whatever user code runs in a pass of a stream, the pass does to the flow what its flush does. The
driver wakes, looks at the flow, resumes it if it has stopped, and sleeps again. Between tasks the
accounts of the stream are kept, each row that the consumer receives included.
-/

namespace TreeStream

variable {κ σ α β : Type} {r r' : RequestId} {f f' : Flow κ} {limit slack : Nat}
  {received : List String}

def Received.row? : Received → Option String
  | .row text => some text
  | _ => none

namespace Flow

theorem Alike.refl (f : Flow κ) : f.Alike f := ⟨rfl, rfl, rfl, Iff.rfl⟩

theorem Alike.trans {f'' : Flow κ} (h : f.Alike f') (h' : f'.Alike f'') : f.Alike f'' :=
  ⟨h'.running.trans h.running, h'.flushing.trans h.flushing, h'.gone.trans h.gone,
    h'.driver.trans h.driver⟩

theorem exists_receive_nil (hrows : f.channel.rows = []) (writing : Bool) :
    ∃ a, a.row? = none ∧ f.channel.receive writing = (a, false, f.channel) := by
  refine ⟨if writing && !f.channel.completed then .pending else .ended, ?_, ?_⟩
  · split <;> rfl
  · rw [Channel.receive, hrows]

theorem exists_receive_cons {row : String} {rest : List String}
    (hrows : f.channel.rows = row :: rest) (writing : Bool) :
    ∃ woken c, f.channel.receive writing = (.row row, woken, c) ∧
      f.receive rest = { f with channel := c, drivers := f.drivers + woken.toNat } := by
  rw [Channel.receive, hrows, Flow.receive]
  by_cases hroom : f.channel.buffered - 1 < f.channel.limit
  · simp only [hroom, if_true]
    exact ⟨_, _, rfl, rfl⟩
  · simp only [hroom, if_false]
    exact ⟨_, _, rfl, rfl⟩

theorem driver_wake (h : f.channel.driver ≠ .running) : f.wake.channel.driver ≠ .running := by
  cases hd : f.channel.driver <;> simp_all [Flow.wake, Channel.wake]

theorem Rests.receive (hf : f.Rests r limit received) {row : String} {rest : List String}
    (hrows : f.channel.rows = row :: rest) :
    (f.receive rest).Rests r limit (received ++ [row]) := by
  have hk := hf.kept.receive hrows
  rw [Flow.receive] at hk ⊢
  split at hk
  · rename_i hroom
    rw [if_pos hroom]
    exact ⟨hk, hf.running, hf.flushing, driver_wake hf.driver⟩
  · rename_i hfull
    rw [if_neg hfull]
    exact ⟨hk, hf.running, hf.flushing, hf.driver⟩

theorem Rests.abandon (hf : f.Rests r limit received) : f.abandon.Rests r limit received :=
  ⟨hf.kept.abandon, hf.running, hf.flushing, driver_wake hf.driver⟩

end Flow

namespace Host

variable {user : UserCode κ σ} {call : (c : HostCall κ) → HostM κ σ c.Reply}

/-! ## Passes -/

/-- An action that counts as a call on the request. -/
theorem running_brings {action : HostM κ σ α} {Q : α → Flow κ → Prop}
    (h : Brings r (f.under (f.running + 1) f.flushing) action fun a f₁ =>
      Q a (f₁.under (f₁.running - 1) f₁.flushing)) :
    Brings r f (running r action) Q :=
  .seq (.modifyRequest (f.under (f.running + 1) f.flushing) (fun _ => rfl) rfl rfl rfl) fun _ =>
    h.bind fun _ f₁ hq =>
      .seq (.modifyRequest (f₁.under (f₁.running - 1) f₁.flushing) (fun _ => rfl) rfl rfl rfl)
        fun _ => .pure hq

/-- A pass that meets no other call of the request fails only if the consumer is gone. -/
theorem tryPinged_brings (huser : user.Spares r) (hcall : CallsLeave r call)
    (hk : f.Kept r limit slack received) (hrunning : f.running = 1) (hflushing : f.flushing = false)
    (n : Nat) :
    Brings r f (tryPinged user call r n) fun a f₁ =>
      f₁.Kept r limit slack received ∧ f.Alike f₁ ∧
        (f₁.channel.consumerGone = false → a = .ok ()) := by
  refine .read fun q hq => ?_
  have hlone : decide (1 < q.running) = false := by
    have hq : q.running = f.running := congrArg Request.running hq
    rw [hq, hrunning]
    rfl
  rw [hlone]
  refine .seq (.record (by simp [Event.isFlowOf])) fun _ =>
    .seq (.of_leaves takePinged_leaves) fun batch =>
    .seq (.of_leaves (.forM (fun s => retry_leaves huser hcall s n) _)) fun _ => .read fun q hq => ?_
  have hk := hk.tell r
  have hq : q.flowing = f.flowing := congrArg Request.flowing hq
  split
  case isFalse => exact .pure ⟨hk, ⟨rfl, rfl, rfl, Iff.rfl⟩, fun _ => rfl⟩
  case isTrue hflows =>
    refine (flush_brings (f := { f with log := _ :: f.log }) hflushing n).post fun a f₁ hf₁ => ?_
    have hlogged : f.Alike { f with log := .began r false :: f.log } := ⟨rfl, rfl, rfl, Iff.rfl⟩
    have halike := hlogged.trans hf₁.alike
    refine ⟨(hf₁.kept hk (hq.symm.trans hflows)).1, halike, fun hgone => hf₁.eq_ok hk.sane ?_⟩
    exact halike.gone.symm.trans hgone

theorem queuedPass_brings (huser : user.Spares r) (hcall : CallsLeave r call)
    (hf : f.Rests r limit received) (n : Nat) :
    Brings r f (queuedPass user call r n) fun _ f₁ => f₁.Rests r limit received := by
  refine running_brings ?_
  have hmark : ∀ b : Bool, Leaves r (modify fun h : Host κ σ => { h with inPass := b } :
      HostM κ σ Unit) := fun b => .modify fun _ => rfl
  have htry := tryPinged_brings huser hcall (hf.kept.under (f.running + 1) f.flushing)
    (show f.running + 1 = 1 by rw [hf.running]) hf.flushing n
  have hpass : Brings r (f.under (f.running + 1) f.flushing) (pass user call r n) fun a f₁ =>
      f₁.Kept r limit 0 received ∧ (f.under (f.running + 1) f.flushing).Alike f₁ ∧
        (f₁.channel.consumerGone = false → a = .ok ()) :=
    .seq (.of_leaves .get) fun h => .seq (.of_leaves (hmark true)) fun _ =>
      htry.bind fun a f₁ hf₁ => .seq (.of_leaves (hmark h.inPass)) fun _ => .pure hf₁
  refine hpass.bind fun a f₁ ⟨hk, halike, hok⟩ => ?_
  have hrests : ∀ {f₂ : Flow κ}, f₂.Kept r limit 0 received → f₁.Alike f₂ →
      (f₂.under (f₂.running - 1) f₂.flushing).Rests r limit received := by
    intro f₂ hk₂ halike₂
    have halike := halike.trans halike₂
    refine ⟨hk₂.under _ _, ?_, halike.flushing.trans hf.flushing, fun hd => ?_⟩
    · have hrunning : f₂.running = f.running + 1 := halike.running
      simp [Flow.under, hrunning, hf.running]
    · exact hf.driver (halike.driver.mp hd)
  cases a with
  | ok u => exact .pure (hrests hk (.refl f₁))
  | error e =>
    cases hgone : f₁.channel.consumerGone with
    | false => exact nomatch hok hgone
    | true =>
      refine Brings.post (Brings.modifyRequest { f₁ with fatal := some e } (fun _ => rfl) rfl rfl
        rfl) fun _ _ hf₂ => ?_
      rw [hf₂]
      exact hrests (hk.fail e hgone) ⟨rfl, rfl, rfl, Iff.rfl⟩

/-! ## Calls of the driver -/

theorem onHeld_brings {action : HostM κ σ α} {Q : Option α → Flow κ → Prop} (hheld : f.held = true)
    (h : Brings r (f.under (f.running + 1) f.flushing) action fun a f₁ =>
      Q (some a) (f₁.under (f₁.running - 1) f₁.flushing)) :
    Brings r f (onHeld r action) Q := by
  intro h₀ a h₁ hl hrun
  obtain ⟨q, hr, hq⟩ := exists_of_line hl
  have hq : q.held = true := (congrArg Request.held hq).trans hheld
  simp only [onHeld, run_bind, run_get, Option.bind_some, hr, hq, if_true] at hrun
  obtain ⟨⟨b, h₂⟩, hrunning, hmap⟩ := Option.bind_eq_some_iff.mp hrun
  cases hmap
  exact running_brings (Q := fun b => Q (some b)) h hl hrunning

theorem startWork_brings (hheld : f.held = true) (n : Nat) :
    Brings r f (answer user n call (.startWork r)) fun _ f₁ => f₁ = f.resume (.started r) :=
  onHeld_brings hheld
    (.seq (.modifyRequest { f.under (f.running + 1) f.flushing with flowing := true } (fun _ => rfl)
      rfl rfl rfl) fun _ => .seq (.record (by simp [Event.isFlowOf])) fun _ =>
        (Brings.of_leaves .schedulePass).post fun _ _ hf₁ => hf₁ ▸ rfl)

theorem takeFatal_brings (hheld : f.held = true) (n : Nat) :
    Brings r f (answer user n call (.takeFatal r)) fun a f₁ =>
      a = some f.fatal ∧ f₁ = { f with fatal := none } := by
  refine onHeld_brings hheld (.read fun q hq => ?_)
  have hq : q.fatal = f.fatal := congrArg Request.fatal hq
  rw [hq]
  exact .seq (.modifyRequest { f.under (f.running + 1) f.flushing with fatal := none }
    (fun _ => rfl) rfl rfl rfl) fun _ => .pure ⟨rfl, rfl⟩

/-- The driver resumes the flow, and no flush is under way then. -/
theorem startFlowing_brings (hheld : f.held = true) (hflushing : f.flushing = false) (n : Nat) :
    Brings r f (answer user n call (.startFlowing r)) fun a f₁ =>
      ∃ result, a = some result ∧ (f.resume (.flowed r false)).Flushes result f₁ := by
  refine onHeld_brings hheld (.read fun q hq => ?_)
  have hq : q.flushing = false := (congrArg Request.flushing hq).trans hflushing
  rw [hq]
  refine .seq (.record (by simp [Event.isFlowOf])) fun _ =>
    .seq (.modifyRequest ((f.resume (.flowed r false)).under (f.running + 1) f.flushing)
      (fun _ => rfl) rfl rfl rfl) fun _ => ?_
  refine (flush_brings (f := (f.resume (.flowed r false)).under (f.running + 1) f.flushing)
    hflushing n).post fun a f₁ hf₁ => ⟨a, rfl, ?_⟩
  have hunder := hf₁.under (f₁.running - 1) f₁.flushing
  have hrunning : f₁.running = f.running + 1 := hf₁.alike.running
  have hflushing₁ : f₁.flushing = f.flushing := hf₁.alike.flushing
  rw [hrunning, hflushing₁] at hunder ⊢
  exact hunder

/-! ## The driver -/

theorem channel_brings : Brings r f (channel r : HostM κ σ Channel) fun c f₁ =>
    c = f.channel ∧ f₁ = f := by
  refine .read fun q hq => ?_
  have hsink : q.settings.sink = .channel f.channel := congrArg (fun q => q.settings.sink) hq
  rw [hsink]
  exact .pure ⟨rfl, rfl⟩

theorem setChannel_brings (c : Channel) :
    Brings r f (setChannel r c : HostM κ σ Unit) fun _ f₁ => f₁ = { f with channel := c } :=
  .modifyRequest { f with channel := c } (fun _ => rfl) rfl rfl rfl

theorem setDriver_brings (d : DriverState) :
    Brings r f (setDriver r d : HostM κ σ Unit) fun _ f₁ => f₁ = f.drive d :=
  channel_brings.bind fun _ _ ⟨hc, hf₁⟩ => by
    subst hc hf₁
    exact setChannel_brings _

/-- The driver goes on until the stream is closed or the consumer is gone, and unless it ends, the
flow goes on or has filled the channel. -/
theorem inspectStream_brings (hf : f.Driven r limit 2 received) (n : Nat) :
    Brings r f (inspectStream user r n) fun goesOn f₁ =>
      f₁.Driven r limit 0 received ∧ (f₁.channel.consumerGone = false →
        if goesOn then f₁.Moves else f₁.closed = true) := by
  have hk := hf.kept
  have hheld : f.held = true := by
    rw [hk.sane.held, hf.driver]
    rfl
  have hweak : f.Driven r limit 0 received := { hf with kept := hk.weaken (Nat.zero_le 2) }
  refine .read fun q hq => ?_
  have hq : q.closed = f.closed := congrArg Request.closed hq
  split
  case isTrue hclosed => exact .pure ⟨hweak, fun _ => hq.symm.trans hclosed⟩
  refine channel_brings.bind fun c f₁ ⟨hc, hf₁⟩ => ?_
  subst hc hf₁
  split
  case isTrue hgone => exact .pure ⟨hweak, fun hhere => nomatch hhere.symm.trans hgone⟩
  refine (takeFatal_brings hheld n).bind fun a f₁ ⟨ha, hf₁⟩ => ?_
  subst ha hf₁
  have hspared : ({ f₁ with fatal := none } : Flow κ).Driven r limit 2 received :=
    { hf with kept := hk.forgive }
  cases hfatal : f₁.fatal with
  | some e =>
    refine .pure ⟨{ hspared with kept := hspared.kept.weaken (Nat.zero_le 2) }, fun hhere => ?_⟩
    exact nomatch (hk.connected hhere).fatal.symm.trans hfatal
  | none =>
    refine .read fun q hq => ?_
    have hq : q.flowing = f₁.flowing := congrArg Request.flowing hq
    split
    case isTrue hflows =>
      exact .pure ⟨{ hspared with kept := hspared.kept.weaken (Nat.zero_le 2) },
        fun _ => .inl (hq.symm.trans hflows)⟩
    refine (startFlowing_brings (f := { f₁ with fatal := none }) hheld hf.flushing n).bind
      fun a f₂ ⟨result, ha, hf₂⟩ => ?_
    subst ha
    have hresumed := hspared.kept.resume hf.driver (e := .flowed r false) trivial
    obtain ⟨hkept, hfull⟩ := hf₂.kept hresumed rfl
    have hdriven : f₂.Driven r limit 0 received :=
      ⟨hkept, hf₂.alike.running.trans hf.running, hf₂.alike.flushing.trans hf.flushing,
        hf₂.alike.driver.mpr hf.driver⟩
    cases result with
    | error e =>
      refine .pure ⟨hdriven, fun hhere => ?_⟩
      exact nomatch hf₂.eq_ok hresumed.sane (hf₂.alike.gone.symm.trans hhere)
    | ok u =>
      refine .pure ⟨hdriven, fun _ => ?_⟩
      cases hflowing : f₂.flowing with
      | true => exact .inl hflowing
      | false => exact .inr (.inl (hfull hflowing))

theorem drive_brings (hf : f.Driven r limit 2 received) (n : Nat) :
    Brings r f (drive user r n) fun _ f₁ => f₁.Rests r limit received := by
  induction n generalizing f with
  | zero => exact .failure
  | succ n ih =>
    refine (inspectStream_brings hf n).bind fun goesOn f₁ ⟨hf₁, hends⟩ => ?_
    cases goesOn with
    | true =>
      refine channel_brings.bind fun c f₂ ⟨hc, hf₂⟩ => ?_
      subst hc hf₂
      split
      case isTrue hpermit =>
        exact .seq (setChannel_brings _) fun _ => ih { hf₁ with kept := hf₁.kept.spend hpermit }
      case isFalse hpermit =>
        refine (setChannel_brings _).post fun _ f₃ hf₃ => hf₃ ▸ ?_
        exact ⟨hf₁.kept.wait hf₁.driver (Bool.eq_false_iff.mpr hpermit) hends, hf₁.running,
          hf₁.flushing, DriverState.noConfusion⟩
    | false =>
      refine .seq (setDriver_brings .stopped) fun _ => ?_
      refine Brings.post (Brings.modifyRequest f₁.stop (fun _ => rfl) rfl rfl rfl)
        fun _ f₂ hf₂ => hf₂ ▸ ?_
      exact ⟨hf₁.kept.stop hf₁.driver hends, hf₁.running, hf₁.flushing, DriverState.noConfusion⟩

theorem startDriver_brings (hlimit : 1 ≤ limit) (hf : f.Rests r limit received)
    (hd : f.channel.driver = .starting) (n : Nat) :
    Brings r { f with drivers := f.drivers - 1 } (startDriver user r n) fun _ f₁ =>
      f₁.Rests r limit received := by
  have hheld : f.held = true := by
    rw [hf.kept.sane.held, hd]
    rfl
  refine .seq (setDriver_brings .running) fun _ => ?_
  refine .seq (startWork_brings (f := f.run) hheld n) fun _ => ?_
  have hbegun := (hf.kept.start hd hlimit).resume rfl (e := .started r) trivial
  refine channel_brings.bind fun c f₁ ⟨hc, hf₁⟩ => ?_
  subst hc hf₁
  split
  case isTrue hpermit =>
    refine .seq (setChannel_brings _) fun _ => drive_brings ?_ n
    exact ⟨(hbegun.weaken (Nat.zero_le 2)).spend hpermit, hf.running, hf.flushing, rfl⟩
  case isFalse hpermit =>
    refine (setChannel_brings _).post fun _ f₂ hf₂ => hf₂ ▸ ?_
    exact ⟨hbegun.wait rfl (Bool.eq_false_iff.mpr hpermit) fun _ => .inl rfl, hf.running,
      hf.flushing, DriverState.noConfusion⟩

/-- A run of the driver, which has left the list of tasks. -/
theorem runDriver_brings (hlimit : 1 ≤ limit) (hf : f.Rests r limit received)
    (hdrivers : 0 < f.drivers) (n : Nat) :
    Brings r { f with drivers := f.drivers - 1 } (runDriver user r n) fun _ f₁ =>
      f₁.Rests r limit received := by
  have hqueued := hf.kept.sane.drivers
  refine channel_brings.bind fun c f₁ ⟨hc, hf₁⟩ => ?_
  subst hc hf₁
  cases hd : f.channel.driver with
  | starting => exact startDriver_brings hlimit hf hd n
  | woken =>
    refine .seq (setDriver_brings .running) fun _ => drive_brings ?_ n
    exact ⟨hf.kept.run hd, hf.running, hf.flushing, rfl⟩
  | running => exact absurd hd hf.driver
  | waiting =>
    rw [hqueued, hd] at hdrivers
    exact absurd hdrivers (Nat.lt_irrefl 0)
  | stopped =>
    rw [hqueued, hd] at hdrivers
    exact absurd hdrivers (Nat.lt_irrefl 0)

/-! ## The consumer -/

theorem receive_brings (hf : f.Rests r limit received) :
    Brings r f (Host.receive r : HostM κ σ Received) fun a f₁ =>
      f₁.Rests r limit (received ++ a.row?.toList) := by
  refine channel_brings.bind fun c f₁ ⟨hc, hf₁⟩ => .seq (.of_leaves .get) fun h => ?_
  subst hc hf₁
  cases hrows : f₁.channel.rows with
  | nil =>
    obtain ⟨a, ha, hreceive⟩ := f₁.exists_receive_nil hrows (h.isAlive r)
    rw [hreceive]
    refine .seq (setChannel_brings _) fun _ => .seq (.queueDriver false) fun _ => .pure ?_
    rw [ha, Option.toList_none, List.append_nil]
    exact hf
  | cons row rest =>
    obtain ⟨woken, c, hreceive, hflow⟩ := f₁.exists_receive_cons hrows (h.isAlive r)
    rw [hreceive]
    refine .seq (setChannel_brings c) fun _ => .seq (.queueDriver woken) fun _ => .pure ?_
    exact hflow ▸ hf.receive hrows

theorem abandonStream_brings (hf : f.Rests r limit received) :
    Brings r f (abandonStream r : HostM κ σ Unit) fun _ f₁ => f₁.Rests r limit received := by
  refine channel_brings.bind fun c f₁ ⟨hc, hf₁⟩ => ?_
  subst hc hf₁
  exact .seq (setChannel_brings _) fun _ =>
    (Brings.queueDriver _).post fun _ f₂ hf₂ => hf₂ ▸ hf.abandon

end Host
end TreeStream
