import Meduman.Model.Outbound

/-!
# Delivered events

A delivery reads its event, sends it, and writes down how that went: a success is added to the count of
the row, a failure sets the count from what was read. Between the read and the write another delivery of
the event may have ended.

* `readEvent` : the event a delivery read
* `completedAttempts` : the deliveries whose request was answered or failed, or whose endpoint was refused
* `current` : a failure is recorded only on an event nobody recorded a delivery of since it was read, and
  no delivery is kept from recording its attempt
* `deliver_promises` : a delivery records every attempt it makes
* `Tracked`, `tracked_step` : what every step keeps then
* **`delivered_stays`** : so a delivered event stays delivered, and every attempt is counted
* `delivered_overwritten` : otherwise a delivery that failed overwrites one that succeeded
-/

set_option autoImplicit false

namespace Meduman.Outbound

open Effect

abbrev Hist := History Op.Ans Err

/-- The event a delivery read. -/
def readEvent (h : Hist) : Option OutboundEvent :=
  h.findSome? fun
    | ⟨.outboundEventFindUnique _, .ok found⟩ => found
    | _ => none

/-- A delivery of this event recorded how it went. -/
def records (id : Uuid) : Event Op.Ans Err → Bool
  | ⟨.outboundEventUpdate id' d, .ok _⟩ => id' == id && d.attemptCount != .keep
  | _ => false

/-- The call recorded a delivery of this event. -/
def recorded (id : Uuid) (_ : Call) (h : Hist) : Bool := h.any (records id)

theorem recorded_cons (id : Uuid) (c : Call) (e : Event Op.Ans Err) (h : Hist) :
    recorded id c (e :: h) = (records id e || recorded id c h) := rfl

/-- What completes an attempt: the request was answered, or failed, or the endpoint's address was refused
and none was sent. -/
def completes (env : Env) : Event Op.Ans Err → Bool
  | ⟨.fetch _, _⟩ => true
  | ⟨.webhookEndpointFindUnique _, .ok (some row)⟩ =>
      row.status == .active && (env.decryptSecret row.secretEnc).isSome &&
        (env.assertPublicUrl row.url (!row.livemode)).isSome
  | _ => false

/-- The call completed an attempt at delivering this event. -/
def attempted (env : Env) (id : Uuid) (c : Call) (h : Hist) : Bool :=
  c == .process id && h.any (completes env)

section Defs

variable {env : Env}

/-- The completed attempts at delivering this event. -/
def completedAttempts (x : Config (service env)) (id : Uuid) : Nat := x.countHist (attempted env id)

/-- The calls under way that completed an attempt at delivering this event and have yet to record it. -/
def unrecordedAttempts (x : Config (service env)) (id : Uuid) : Nat :=
  x.procs.countP fun p =>
    p.running && attempted env id p.call p.hist && !recorded id p.call p.hist

/-- The updates of this event that recorded a delivery. -/
def recordedAttempts (x : Config (service env)) (id : Uuid) : Nat := x.countHist (recorded id)

/-- The answer arrives. -/
def heard : Fate Supply → Bool
  | .lost .. => false
  | _ => true

/-- An update that finds its event as its delivery left it: a failure the count it read, and a missing
endpoint an event that is not delivered. -/
def Op.current (h : Hist) (w : World) : Op → Bool
  | .outboundEventUpdate id d => w.outboundEvents.rows.all fun e => e.id != id ||
      match d.attemptCount with
      | .increment _ => true
      | .set _ => (readEvent h).all fun r => e.attemptCount == r.attemptCount
      | .keep => e.status != .delivered
  | _ => true

/-- The operation updates an event. -/
def Op.updates : Op → Bool
  | .outboundEventUpdate .. => true
  | _ => false

/-- The operation records that a delivery failed. -/
def Op.recordsFailure : Op → Bool
  | .outboundEventUpdate _ d => match d.attemptCount with
      | .set _ => true
      | _ => false
  | _ => false

/-- The operation takes place. -/
def carried : Fate Supply → Bool
  | .failed _ => false
  | _ => true

/-- A call that may be cut off: it completed no attempt, or recorded it. -/
def unburdened (env : Env) (c : Call) (h : Hist) : Bool :=
  match c with
  | .process id => !attempted env id c h || recorded id c h
  | _ => true

variable (env)

/-- A failure is recorded only on an event nobody recorded a delivery of since it was read, the record of
a failure does not fail, the answer to a record is not lost, and no delivery is cut off between its
attempt and the record of it. -/
def current : Policy (service env) := fun x l =>
  match l with
  | .perform i o => match x.pending i with
      | some (p, ⟨op, _⟩) => op.current p.hist x.world && (!op.updates || heard o) &&
          (!op.recordsFailure || carried o)
      | none => true
  | .crash i => (x.procs[i]?).all fun p => unburdened env p.call p.hist
  | _ => true

end Defs

variable {env : Env} {h h' : Hist} {r : OutboundEvent} {id : Uuid} {c : Call}

/-! ## What a delivery writes -/

/-- The three updates of a delivery that read this event. -/
inductive Writes (r : OutboundEvent) : OutboundEventUpdate → Prop
  | success (now : Int) : Writes r
      { status := some .delivered, deliveredAt := some now, attemptCount := .increment 1,
        lastError := some none }
  | failure (message : Option String) (last : Bool) : Writes r
      { attemptCount := .set (r.attemptCount + 1), lastError := some message,
        status := if last then some .failed else none }
  | unreachable (message : Option String) : Writes r
      { status := some .failed, lastError := some message }

/-- Nothing was recorded yet. -/
def Unrecorded (h : Hist) : Prop := ∀ id, ∀ e ∈ h, records id e = false

/-- What a call promises: it updates the event it read when that was not delivered, and records a
delivery once, after it completed the attempt. -/
def Promises (env : Env) (c : Call) (h : Hist) : Op → Prop
  | .outboundEventUpdate id d =>
      ∃ r, readEvent h = some r ∧ r.id = id ∧ r.status ≠ .delivered ∧ Unrecorded h ∧ Writes r d ∧
        (d.attemptCount ≠ .keep → attempted env id c h = true)
  | _ => True

/-- An event found by its identifier has it, and the clock is always read. -/
def Possible : Event Op.Ans Err → Prop
  | ⟨.outboundEventFindUnique id, .ok (some found)⟩ => found.id = id
  | ⟨.now, .error _⟩ => False
  | _ => True

/-- The record of a failure was not answered. -/
def drops : Event Op.Ans Err → Bool
  | ⟨op, .error _⟩ => op.recordsFailure
  | ⟨_, .ok _⟩ => false

/-- An attempt that was completed is recorded, unless the record of its failure failed. -/
def Settled (env : Env) (c : Call) (h : Hist) : Prop :=
  ∀ id, attempted env id c h = true → recorded id c h = true ∨ ∃ e ∈ h, drops e = true

/-- A delivery that read this event. -/
def HasRead (r : OutboundEvent) (h : Hist) : Prop := readEvent h = some r ∧ Unrecorded h

theorem unrecorded_cons {e : Event Op.Ans Err} (he : ∀ id, records id e = false)
    (hh : Unrecorded h) : Unrecorded (e :: h) := fun id e' hmem => by
  rcases List.mem_cons.mp hmem with rfl | hmem
  · exact he id
  · exact hh id e' hmem

/-- The operation reads no event, and updates none. -/
def Op.aside : Op → Prop
  | .outboundEventFindUnique _ | .outboundEventUpdate .. => False
  | _ => True

theorem HasRead.cons {op : Op} {a : Except Err op.Ans} (hr : HasRead r h) (hop : op.aside) :
    HasRead r (⟨op, a⟩ :: h) := by
  refine ⟨?_, unrecorded_cons (fun id => ?_) hr.2⟩
  · rw [readEvent, List.findSome?_cons]
    cases op with
    | outboundEventFindUnique _ => exact hop.elim
    | outboundEventUpdate _ _ => exact hop.elim
    | _ => exact hr.1
  · cases op with
    | outboundEventFindUnique _ => exact hop.elim
    | outboundEventUpdate _ _ => exact hop.elim
    | _ => rfl

/-- An update that was not answered recorded nothing. -/
theorem HasRead.failed {d : OutboundEventUpdate} {e : Err} (hr : HasRead r h) :
    HasRead r (⟨.outboundEventUpdate id d, .error e⟩ :: h) := by
  refine ⟨?_, unrecorded_cons (fun _ => rfl) hr.2⟩
  rw [readEvent, List.findSome?_cons]
  exact hr.1

theorem attempted_cons {e : Event Op.Ans Err} (h' : attempted env id c h = true) :
    attempted env id c (e :: h) = true := by
  obtain ⟨hc, hh⟩ := Bool.and_eq_true_iff.mp h'
  exact Bool.and_eq_true_iff.mpr ⟨hc, Bool.or_eq_true_iff.mpr (.inr hh)⟩

theorem attempted_of_append {later : Hist} (h' : attempted env id c h = true) :
    attempted env id c (later ++ h) = true := by
  induction later with
  | nil => exact h'
  | cons e later ih => exact attempted_cons ih

theorem settled_of_recorded (hc : c = .process id) (hrec : recorded id c h = true) :
    Settled env c h := fun id' hatt => by
  obtain rfl : id = id' := by
    have hproc := beq_iff_eq.mp (Bool.and_eq_true_iff.mp hatt).1
    exact Call.process.inj (hc.symm.trans hproc)
  exact .inl hrec

theorem settled_of_idle (hh : h.any (completes env) = false) : Settled env c h := fun id hatt => by
  rw [attempted, hh, Bool.and_false] at hatt
  cases hatt

theorem Settled.cons {e : Event Op.Ans Err} (hs : Settled env c h) (he : completes env e = false) :
    Settled env c (e :: h) := fun id hatt => by
  rw [attempted, List.any_cons, he, Bool.false_or] at hatt
  refine (hs id hatt).imp (fun hrec => ?_) fun ⟨e', he', hd⟩ => ⟨e', List.mem_cons_of_mem _ he', hd⟩
  rw [recorded_cons, hrec, Bool.or_true]

theorem promises_of_aside (h : Hist) (op : Op) (hop : op.aside) : Promises env c h op := by
  cases op with
  | outboundEventFindUnique _ => exact hop.elim
  | outboundEventUpdate _ _ => exact hop.elim
  | _ => trivial

variable {P : Event Op.Ans Err → Prop} {α : Type}

theorem along_aside {p : Program α} {Q : Except Err α → Hist → Prop} (hp : p.Uses Op.aside)
    (hQ : ∀ r l, (∀ e ∈ l, e.op.aside) → Q r (l ++ h)) : p.Along P (Promises env c) Q h :=
  hp.along promises_of_aside hQ

/-- **Sending** completes the attempt: it records the success, or leaves the event read and nothing
recorded. -/
theorem send_promises {endpoint : DeliveryEndpoint} (hc : c = .process r.id) (hr : HasRead r h)
    (hst : r.status ≠ .delivered)
    (hrefused : (env.assertPublicUrl endpoint.url (!endpoint.livemode)).isSome = true →
      attempted env r.id c h = true) :
    (send env r endpoint).Along Possible (Promises env c) (fun result h' =>
      (∀ e, result = .error e → HasRead r h' ∧ attempted env r.id c h' = true) ∧
        ∀ a, result = .ok a → Settled env c h') h := by
  unfold send
  split
  · rename_i message hmessage
    exact ⟨fun _ _ => ⟨hr, hrefused (by rw [hmessage]; rfl)⟩, fun _ ha => by cases ha⟩
  · have hnow : ∀ {h : Hist} (a : Except Err Int), HasRead r h → HasRead r (⟨.now, a⟩ :: h) :=
      fun _ hr => hr.cons trivial
    have hfetch : ∀ {h : Hist} (request : WebhookRequest) (a : Except Err Nat), HasRead r h →
        HasRead r (⟨.fetch request, a⟩ :: h) := fun _ _ hr => hr.cons trivial
    -- the request is answered, or fails
    have hdone : ∀ {h : Hist} (request : WebhookRequest) (a : Except Err Nat),
        attempted env r.id c (⟨.fetch request, a⟩ :: h) = true := fun _ _ => by
      rw [attempted, List.any_cons, hc, completes, Bool.true_or, Bool.and_true, beq_self_eq_true]
    rw [along_perform_bind]
    refine ⟨trivial, fun _ hclock => hclock.elim, fun now _ => ?_⟩
    rw [along_perform_bind]
    refine ⟨trivial, fun _ _ => ⟨fun _ _ => ⟨hfetch _ _ (hnow _ hr), hdone _ _⟩,
      fun _ ha => by cases ha⟩, fun status _ => ?_⟩
    have hr₁ := hfetch
      { url := endpoint.url, eventId := r.id,
        signature := buildSignatureHeader env endpoint.secret (now / 1000)
          (env.stringify r.id r.type r.payload),
        body := env.stringify r.id r.type r.payload } (.ok status) (hnow (.ok now) hr)
    split
    · exact ⟨fun _ _ => ⟨hr₁, hdone _ _⟩, fun _ ha => by cases ha⟩
    · rw [along_perform_bind]
      refine ⟨trivial, fun _ hclock => hclock.elim, fun deliveredAt _ => ?_⟩
      have hr₂ := hnow (.ok deliveredAt) hr₁
      refine (along_perform _ _).mpr ⟨⟨r, hr₂.1, rfl, hst, hr₂.2, .success _,
        fun _ => attempted_cons (hdone _ _)⟩, fun _ _ => ⟨fun _ _ => ⟨hr₂.failed,
          attempted_cons (attempted_cons (hdone _ _))⟩, fun _ ha => by cases ha⟩,
        fun _ _ => ⟨fun _ he => (by cases he), fun _ _ => settled_of_recorded hc ?_⟩⟩
      rw [recorded_cons, records, beq_self_eq_true]
      rfl

/-- **The failure** of an attempt is recorded. -/
theorem recordFailure_promises {err : Err} (hc : c = .process r.id) (hr : HasRead r h)
    (hst : r.status ≠ .delivered) (hatt : attempted env r.id c h = true) :
    (recordFailure env r err).Along P (Promises env c) (fun _ h' => Settled env c h') h := by
  have hwrites (message : Option String) (last : Bool) : Promises env c h (.outboundEventUpdate r.id
      { attemptCount := .set (r.attemptCount + 1), lastError := some message,
        status := if last then some .failed else none }) :=
    ⟨r, hr.1, rfl, hst, hr.2, .failure message last, fun _ => hatt⟩
  have hdropped (message : Option String) (status : Option OutboundEventStatus) (e : Err) :
      Settled env c (⟨.outboundEventUpdate r.id
        { attemptCount := .set (r.attemptCount + 1), lastError := some message, status := status },
        .error e⟩ :: h) :=
    fun _ _ => .inr ⟨_, List.mem_cons_self, rfl⟩
  have hrecorded (message : Option String) (status : Option OutboundEventStatus) :
      Settled env c (⟨.outboundEventUpdate r.id
        { attemptCount := .set (r.attemptCount + 1), lastError := some message, status := status },
        .ok ()⟩ :: h) :=
    settled_of_recorded hc (by rw [recorded_cons, records, beq_self_eq_true]; rfl)
  have hlate : (await (.outboundEventUpdate r.id
      { attemptCount := .set (r.attemptCount + 1), lastError := some (some err.message),
        status := if decide (env.maxAttempts ≤ r.attemptCount + 1) then some .failed else none }) >>=
      fun _ => if !decide (env.maxAttempts ≤ r.attemptCount + 1) then Prog.throw err
        else pure ()).Along P (Promises env c) (fun _ h' => Settled env c h') h := by
    rw [along_perform_bind]
    refine ⟨hwrites _ _, fun e _ => hdropped _ _ e, fun _ _ => ?_⟩
    split <;> exact hrecorded _ _
  cases err with
  | badRequest message =>
      exact (along_perform _ _).mpr ⟨hwrites (some message) true, fun e _ => hdropped _ _ e,
        fun _ _ => hrecorded _ _⟩
  | prisma message => exact hlate
  | plain message => exact hlate

/-- **A delivery** updates the event it read, once, and records the attempt it completed. -/
theorem deliver_promises (eventId : Uuid) (hc : c = .process eventId) (hh : Unrecorded h)
    (hidle : h.any (completes env) = false) :
    (deliver env eventId).Along Possible (Promises env c) (fun _ h' => Settled env c h') h := by
  unfold deliver
  rw [along_perform_bind]
  refine ⟨trivial, fun _ _ => settled_of_idle hidle, ?_⟩
  rintro (_ | event) hfound
  · exact settled_of_idle hidle
  dsimp only
  split
  · exact settled_of_idle hidle
  rename_i hst
  obtain rfl : event.id = eventId := hfound
  have hr : HasRead event (⟨.outboundEventFindUnique event.id, .ok (some event)⟩ :: h) :=
    ⟨rfl, unrecorded_cons (fun _ => rfl) hh⟩
  -- the endpoint
  unfold resolveForDelivery
  rw [along_bind, along_perform_bind]
  refine ⟨trivial, fun _ _ => settled_of_idle hidle, fun row _ => ?_⟩
  have hr' : HasRead event (⟨.webhookEndpointFindUnique event.merchantId, .ok row⟩ ::
      ⟨.outboundEventFindUnique event.id, .ok (some event)⟩ :: h) := hr.cons trivial
  have hmissing (hno : completes env ⟨.webhookEndpointFindUnique event.merchantId, .ok row⟩ = false) :
      (await (.outboundEventUpdate event.id
        { status := some .failed, lastError := some (some "no active endpoint") })).Along
      Possible (Promises env c) (fun _ h' => Settled env c h')
      (⟨.webhookEndpointFindUnique event.merchantId, .ok row⟩ ::
        ⟨.outboundEventFindUnique event.id, .ok (some event)⟩ :: h) := by
    have hsettled : Settled env c (⟨.webhookEndpointFindUnique event.merchantId, .ok row⟩ ::
        ⟨.outboundEventFindUnique event.id, .ok (some event)⟩ :: h) :=
      ((settled_of_idle hidle).cons rfl).cons hno
    exact (along_perform _ _).mpr ⟨⟨event, hr'.1, rfl, hst, hr'.2, .unreachable _,
      fun hk => absurd rfl hk⟩, fun _ _ => hsettled.cons rfl, fun _ _ => hsettled.cons rfl⟩
  cases row with
  | none => exact hmissing rfl
  | some row =>
      dsimp only
      split
      · rename_i hactive
        exact hmissing (by simp [completes, hactive])
      · rename_i hactive
        split
        · rename_i hdecrypt
          exact ((settled_of_idle hidle).cons rfl).cons (by simp [completes, hdecrypt])
        · rename_i secret hdecrypt
          have hrefused : (env.assertPublicUrl row.url (!row.livemode)).isSome = true →
              attempted env event.id c (⟨.webhookEndpointFindUnique event.merchantId, .ok (some row)⟩ ::
                ⟨.outboundEventFindUnique event.id, .ok (some event)⟩ :: h) = true := fun hsome => by
            have hactive : row.status = .active := Decidable.not_not.mp hactive
            simp [attempted, completes, hc, hactive, hdecrypt, hsome]
          show Prog.Along _ _ _ ((send env event _).tryCatch (recordFailure env event)) _
          rw [along_tryCatch]
          refine (send_promises hc hr' hst hrefused).mono fun result h' hres => ?_
          cases result with
          | ok a => exact hres.2 a rfl
          | error e =>
              obtain ⟨hread, hatt⟩ := hres.1 e rfl
              exact recordFailure_promises hc hread hst hatt

theorem process_promises (eventId : Uuid) (hc : c = .process eventId) :
    (process env eventId).Along Possible (Promises env c) (fun _ h' => Settled env c h') [] := by
  unfold process
  rw [along_perform_bind]
  refine ⟨trivial, fun _ _ => settled_of_idle rfl, fun start _ => ?_⟩
  have hnew : Unrecorded [⟨.startJob eventId, .ok start⟩] :=
    unrecorded_cons (fun _ => rfl) fun _ _ he => absurd he List.not_mem_nil
  -- the job is completed, or fails
  have hend {h' : Hist} (hs : Settled env c h') (delivered : Bool) :
      (if delivered then await (.completeJob eventId start)
        else await (.failJob eventId start) : Program Unit).Along Possible (Promises env c)
        (fun _ h' => Settled env c h') h' := by
    split <;> exact (along_perform _ _).mpr ⟨trivial, fun _ _ => hs.cons rfl, fun _ _ => hs.cons rfl⟩
  rw [along_bind, along_tryCatch, along_bind]
  refine (deliver_promises eventId hc hnew rfl).mono fun result h' hs => ?_
  cases result with
  | ok _ => exact hend hs true
  | error _ => exact hend hs false

theorem enqueueEach_aside (ids : List Uuid) : (enqueueEach ids).Uses Op.aside := by
  induction ids with
  | nil => exact uses_done _
  | cons id rest ih => exact uses_bind (uses_perform trivial) fun _ => ih

theorem redispatchPending_aside (graceSeconds : Int) :
    (redispatchPending graceSeconds).Uses Op.aside := by
  refine uses_bind (uses_perform trivial) fun now => ?_
  refine uses_bind (uses_perform trivial) fun rows => ?_
  exact uses_bind (enqueueEach_aside _) fun _ => uses_done _

theorem settled_of_other (hc : ∀ id, c ≠ .process id) : Settled env c h := fun id hatt =>
  absurd (beq_iff_eq.mp (Bool.and_eq_true_iff.mp hatt).1) (hc id)

/-- **What every call promises,** and how it leaves its attempts. -/
theorem code_promises (c : Call) :
    (code env c).Along Possible (Promises env c) (fun _ h' => Settled env c h') [] := by
  cases c with
  | dispatch eventId =>
      exact along_aside (uses_bind
        (uses_tryCatch (uses_perform trivial) fun _ => uses_done _) fun _ => uses_done _)
        fun _ _ _ => settled_of_other fun _ h => by cases h
  | process eventId =>
      rw [code, Prog.map_eq, along_bind]
      refine (process_promises eventId rfl).mono fun result _ hs => ?_
      cases result <;> exact hs
  | redispatchPending graceSeconds =>
      exact along_aside (uses_bind (redispatchPending_aside graceSeconds) fun _ => uses_done _)
        fun _ _ _ => settled_of_other fun _ h => by cases h

/-! ## What a step does to the events -/

section Step

variable {u w : World} {x y : Config (service env)} {l : Label (service env)}

theorem possible_of_exec {op : Op} {o : Fate Supply} {a : Except Err op.Ans}
    (he : (service env).exec op o u = some (a, w)) : Possible ⟨op, a⟩ := by
  cases op with
  | outboundEventFindUnique id =>
      rcases a with e | _ | found
      · trivial
      · trivial
      · obtain ⟨s, -, heff⟩ := Backend.exec_ok he
        exact beq_iff_eq.mp (Table.find_spec (Except.ok.inj (congrArg Prod.fst heff))).2
  | now =>
      cases a with
      | ok _ => trivial
      | error e =>
          obtain ⟨s, heff⟩ := Backend.exec_sure (B := backend) he rfl rfl
          cases heff
  | _ => cases a <;> trivial

/-- Rows with the same identifier are the same. -/
theorem same_event {t : Table OutboundEvent} {a b : OutboundEvent} (ha : a ∈ t) (hb : b ∈ t)
    (hid : a.id = b.id) : a = b := Table.eq_of_clash ha hb (by simp [Constrained.clash, hid])

/-- An update reaches the event, if it is there. -/
theorem updateEvent_cases (id : Uuid) (d : OutboundEventUpdate) (w : World) :
    ((∀ e ∈ w.outboundEvents, e.id ≠ id) ∧ (updateEvent id d w).2 = w ∧
      ∃ e, (updateEvent id d w).1 = .error e) ∨
    (updateEvent id d w).1 = .ok () ∧ ∃ t, w.outboundEvents.update (fun e => e.id == id) d.apply = some t ∧
      (updateEvent id d w).2 = { w with outboundEvents := t } ∧ ∃ e ∈ w.outboundEvents, e.id = id := by
  unfold updateEvent
  split
  · rename_i hnone
    refine .inl ⟨fun e he hid => ?_, rfl, _, rfl⟩
    simpa [hid] using Table.find_none hnone he
  · rename_i found hfind
    obtain ⟨hmem, hid⟩ := Table.find_spec hfind
    have hkeep (e : OutboundEvent) : (if (e.id == id) = true then d.apply e else e).id = e.id := by
      split <;> rfl
    have hsome : ∃ t, w.outboundEvents.update (fun e => e.id == id) d.apply = some t := by
      refine Table.update_isSome fun a ha b hb => ?_
      simp only [Constrained.clash, hkeep]
    obtain ⟨t, ht⟩ := hsome
    rw [ht]
    exact .inr ⟨rfl, t, rfl, rfl, found, hmem, beq_iff_eq.mp hid⟩

/-- Only an update changes the events. -/
theorem events_of_not_update {op : Op} {o : Fate Supply} {a : Except Err op.Ans}
    (he : (service env).exec op o u = some (a, w)) (hop : op.updates = false) :
    w.outboundEvents = u.outboundEvents := by
  refine Backend.exec_keeps (P := fun w => w.outboundEvents = u.outboundEvents) he rfl fun s _ => ?_
  cases op with
  | outboundEventUpdate _ _ => cases hop
  | startJob eventId => simp only [backend, effect]; split <;> rfl
  | completeJob eventId start => simp only [backend, effect, finishJob]; split <;> rfl
  | failJob eventId start => simp only [backend, effect, finishJob]; split <;> rfl
  | _ => rfl

end Step

/-! ## The invariant -/

/-- The row is a later state of the event that was read. -/
structure Since (r e : OutboundEvent) : Prop where
  id : e.id = r.id
  attemptCount : r.attemptCount ≤ e.attemptCount
  delivered : r.status ≠ .delivered → e.status = .delivered → r.attemptCount < e.attemptCount

/-- What may become of a row in a step: a delivered one stays so, and the count shows a delivery. -/
structure Advances (e e' : OutboundEvent) : Prop extends Since e e' where
  stays : e.status = .delivered → e'.status = .delivered

theorem Since.refl (e : OutboundEvent) : Since e e := ⟨rfl, Nat.le_refl _, fun hne h => absurd h hne⟩

theorem Advances.refl (e : OutboundEvent) : Advances e e := ⟨.refl e, fun h => h⟩

theorem Since.trans {a b d : OutboundEvent} (hab : Since a b) (hbd : Advances b d) : Since a d where
  id := hbd.id.trans hab.id
  attemptCount := Nat.le_trans hab.attemptCount hbd.attemptCount
  delivered hne hd := by
    by_cases hb : b.status = .delivered
    · exact Nat.lt_of_lt_of_le (hab.delivered hne hb) hbd.attemptCount
    · exact Nat.lt_of_le_of_lt hab.attemptCount (hbd.delivered hb hd)

/-- Every count is the number of updates that recorded a delivery, every row is a later state of what was
read of it, no record of a failure failed, and nobody was cut off before the record of an attempt. -/
structure Tracked (x : Config (service env)) : Prop where
  counted : ∀ e ∈ World.outboundEvents x.world, e.attemptCount = recordedAttempts x e.id
  there : ∀ id, recordedAttempts x id ≠ 0 → ∃ e ∈ World.outboundEvents x.world, e.id = id
  seen : ∀ p ∈ x.procs, ∀ r, readEvent p.hist = some r →
    ∃ e ∈ World.outboundEvents x.world, Since r e
  kept : ∀ p ∈ x.procs, ∀ e ∈ p.hist, drops e = false
  uncut : ∀ p ∈ x.procs, p.prog = none → unburdened env p.call p.hist = true

theorem tracked_initial : Tracked (⟨World.initial, []⟩ : Config (service env)) where
  counted _ he := absurd he (Table.not_mem_empty _)
  there _ h := absurd rfl h
  seen _ hp := absurd hp List.not_mem_nil
  kept _ hp := absurd hp List.not_mem_nil
  uncut _ hp := absurd hp List.not_mem_nil

variable {d : OutboundEventUpdate} {e : OutboundEvent}

/-- **A record on an event as its delivery left it** advances the row, and counts the attempt. -/
theorem Writes.advances (hw : Writes r d) (hs : Since r e) (hne : r.status ≠ .delivered)
    (hset : ∀ n, d.attemptCount = .set n → e.attemptCount = r.attemptCount)
    (hkeep : d.attemptCount = .keep → e.status ≠ .delivered) :
    Advances e (d.apply e) ∧
      (d.apply e).attemptCount = e.attemptCount + (d.attemptCount != .keep).toNat := by
  cases hw with
  | success now =>
      exact ⟨⟨⟨rfl, Nat.le_succ _, fun _ _ => Nat.lt_succ_self _⟩, fun _ => rfl⟩, rfl⟩
  | failure message last =>
      have hcount := hset _ rfl
      have hopen : e.status ≠ .delivered := fun hd => by
        have := hs.delivered hne hd
        omega
      have happly : (OutboundEventUpdate.apply
          { attemptCount := .set (r.attemptCount + 1), lastError := some message,
            status := if last then some .failed else none } e).attemptCount = e.attemptCount + 1 :=
        (congrArg Nat.succ hcount).symm
      exact ⟨⟨⟨rfl, happly ▸ Nat.le_succ _, fun _ _ => happly ▸ Nat.lt_succ_self _⟩,
        fun hd => absurd hd hopen⟩, happly⟩
  | unreachable message =>
      have hopen := hkeep rfl
      exact ⟨⟨⟨rfl, Nat.le_refl _, fun _ hd => by cases hd⟩, fun hd => absurd hd hopen⟩, rfl⟩

section Run

variable {x y : Config (service env)} {l : Label (service env)}

/-- What a step that follows the policy does to the events and to the counts. -/
inductive Records (x y : Config (service env)) : Prop
  | idle (events : World.outboundEvents y.world = World.outboundEvents x.world)
      (counts : ∀ id, recordedAttempts y id = recordedAttempts x id)
  | record {e : OutboundEvent}
      (created : (World.outboundEvents x.world).create e = some (World.outboundEvents y.world))
      (fresh : e.attemptCount = 0)
      (counts : ∀ id, recordedAttempts y id = recordedAttempts x id)
  | update {id : Uuid} {d : OutboundEventUpdate}
      (write : (World.outboundEvents x.world).update (fun e => e.id == id) d.apply =
        some (World.outboundEvents y.world))
      (there : ∃ e ∈ World.outboundEvents x.world, e.id = id)
      (advances : ∀ e ∈ World.outboundEvents x.world, e.id = id → Advances e (d.apply e) ∧
        (d.apply e).attemptCount = e.attemptCount + (d.attemptCount != .keep).toNat)
      (counts : ∀ id', recordedAttempts y id' =
        recordedAttempts x id' + (id == id' && d.attemptCount != .keep).toNat)

/-- What a call in progress promises of the rest of it. -/
theorem kept_promise (hx : Reachable env x) {p : Process (service env)} (hp : p ∈ x.procs)
    {q : Program Reply} (hk : p.prog = some q) :
    q.Along Possible (Promises env p.call) (fun _ h' => Settled env p.call h') p.hist :=
  hx.along (P := Possible) (R := fun c _ h' => Settled env c h') possible_of_exec
    (fun _ => code_promises _) p hp q hk

theorem records_step (hx : Reachable env x) (hI : Tracked x) (hP : current env x l = true)
    (hs : x.Step y l) : Records x y := by
  have hidle (hl : ∀ i o, l ≠ .perform i o) (id : Uuid) :
      recordedAttempts y id = recordedAttempts x id := hs.countHist_eq (fun _ => rfl) hl
  cases hs with
  | arrive _ hw _ => exact .idle (by rw [hw]) (hidle fun _ _ h => by cases h)
  | crash _ hw _ => exact .idle (by rw [hw]) (hidle fun _ _ h => by cases h)
  | @drift m hm _ =>
      have hcounts := hidle fun _ _ h => by cases h
      cases m with
      | record id merchantId type payload =>
          obtain ⟨t, hcreate, hw⟩ := Option.map_eq_some_iff.mp hm
          exact .record (by rw [← hw]; exact hcreate) rfl hcounts
      | _ => exact .idle (by rw [← Option.some.inj hm]) hcounts
  | @perform i o p op k a hp hk he hprocs =>
      have hcounts (id : Uuid) :=
        (Config.Step.perform hp hk he hprocs).countHist_perform (φ := recorded id) hp hk he
      have hsame (ha : ∀ id, records id ⟨op, a⟩ = false) (id : Uuid) :
          recordedAttempts y id = recordedAttempts x id := by
        have hcount := hcounts id
        rw [recorded_cons, ha, Bool.false_or] at hcount
        exact Nat.add_right_cancel hcount
      cases hop : op.updates with
      | false =>
          refine .idle (events_of_not_update he hop) (hsame fun id => ?_)
          cases op with
          | outboundEventUpdate _ _ => cases hop
          | _ => rfl
      | true =>
          cases op with
          | outboundEventUpdate id d =>
              obtain ⟨r, hread, hid, hne, hun, hwrites, -⟩ : Promises env p.call p.hist
                  (.outboundEventUpdate id d) := (kept_promise hx (List.mem_of_getElem? hp) hk).1
              obtain ⟨e₀, he₀, hsince⟩ := hI.seen p (List.mem_of_getElem? hp) r hread
              simp only [current, Config.pending_eq hp hk, Op.current, Op.updates, Bool.not_true,
                Bool.false_or, Bool.and_eq_true, List.all_eq_true] at hP
              obtain ⟨⟨hcur, hheard⟩, -⟩ := hP
              cases o with
              | lost s m => cases hheard
              | failed m =>
                  obtain ⟨ha, hw⟩ := Prod.mk.inj (Option.some.inj he)
                  cases ha
                  exact .idle (by rw [← hw]) (hsame fun _ => rfl)
              | served s =>
                  have heff : (a, y.world) = updateEvent id d x.world :=
                    Backend.exec_served (B := backend) (s := s) he
                  rcases updateEvent_cases id d x.world with ⟨-, hw, e, ha⟩ | ⟨ha, t, ht, hw, hrow⟩
                  · rw [← heff] at hw ha
                    cases ha
                    exact .idle (congrArg World.outboundEvents hw) (hsame fun _ => rfl)
                  · rw [← heff] at hw ha
                    cases ha
                    replace hw : y.world = { x.world with outboundEvents := t } := hw
                    refine .update (by rw [hw]; exact ht) hrow (fun e he heid => ?_) fun id' => ?_
                    · obtain rfl : e = e₀ := same_event he he₀ (heid.trans (hid.symm.trans hsince.id.symm))
                      have hfree := (Bool.or_eq_true_iff.mp (hcur e he)).resolve_left (by simp [heid])
                      refine hwrites.advances hsince hne (fun n hn => ?_) fun hk => ?_
                      · rw [hn, hread] at hfree
                        exact beq_iff_eq.mp hfree
                      · rw [hk] at hfree
                        exact bne_iff_ne.mp hfree
                    · have hcount := hcounts id'
                      have hnone : recorded id' p.call p.hist = false :=
                        List.any_eq_false.mpr fun e he => by simp [hun id' e he]
                      rw [recorded_cons, hnone, Bool.or_false] at hcount
                      exact hcount
          | _ => cases hop

/-- Every row stays, and advances. -/
theorem Records.advances (hr : Records x y) {e : OutboundEvent}
    (he : e ∈ World.outboundEvents x.world) :
    ∃ e' ∈ World.outboundEvents y.world, Advances e e' := by
  cases hr with
  | idle events counts => exact ⟨e, by rw [events]; exact he, .refl e⟩
  | record created fresh counts => exact ⟨e, (Table.mem_create created).mpr (.inl he), .refl e⟩
  | @update id d write there advances counts =>
      cases hid : e.id == id with
      | true => exact ⟨_, Table.mem_update_of write he hid, (advances e he (beq_iff_eq.mp hid)).1⟩
      | false => exact ⟨e, Table.mem_update_of_not write he hid, .refl e⟩

/-- What a call read is a row, or was one. -/
theorem readEvent_step (hs : x.Step y l) {q : Process (service env)} (hq : q ∈ y.procs)
    (hread : readEvent q.hist = some r) :
    (∃ p ∈ x.procs, readEvent p.hist = some r) ∨ r ∈ World.outboundEvents y.world := by
  obtain ⟨j, hj⟩ := List.getElem?_of_mem hq
  rcases hs.hist_cases hj with ⟨p, hp, -, hh⟩ | hh | ⟨p, op, k, o, a, hp, -, -, he, -, hh⟩
  · exact .inl ⟨p, List.mem_of_getElem? hp, hh ▸ hread⟩
  · rw [hh] at hread
    cases hread
  · rw [hh, readEvent, List.findSome?_cons] at hread
    split at hread
    · rename_i found hfound
      split at hfound
      · rename_i id found' heq
        cases heq
        cases hfound
        cases hread
        refine .inr ?_
        obtain ⟨s, -, heff⟩ := Backend.exec_ok he
        obtain ⟨hfind, hw⟩ := Prod.mk.inj heff
        rw [← hw]
        exact (Table.find_spec (Except.ok.inj hfind)).1
      · cases hfound
    · exact .inl ⟨p, List.mem_of_getElem? hp, hread⟩

/-- **A failure is recorded,** under the policy: what it updates is there. -/
theorem kept_step (hx : Reachable env x) (hI : Tracked x) (hP : current env x l = true)
    (hs : x.Step y l) {q : Process (service env)} (hq : q ∈ y.procs) {e : Event Op.Ans Err}
    (he : e ∈ q.hist) : drops e = false := by
  obtain ⟨j, hj⟩ := List.getElem?_of_mem hq
  rcases hs.hist_cases hj with ⟨p, hp, -, hh⟩ | hh | ⟨p, op, k, o, a, hp, hk, rfl, hexec, -, hh⟩
  · exact hI.kept p (List.mem_of_getElem? hp) e (hh ▸ he)
  · rw [hh] at he
    cases he
  · rw [hh] at he
    rcases List.mem_cons.mp he with rfl | he
    · by_contra hdrops
      have hdrops : drops ⟨op, a⟩ = true := Bool.of_not_eq_false hdrops
      cases a with
      | ok _ => cases hdrops
      | error fault =>
          have hrec : op.recordsFailure = true := hdrops
          simp only [current, Config.pending_eq hp hk, hrec, Bool.not_true, Bool.false_or,
            Bool.and_eq_true] at hP
          obtain ⟨⟨-, hheard⟩, hcarried⟩ := hP
          cases op with
          | outboundEventUpdate id d =>
              obtain ⟨r, hread, hid, -⟩ : Promises env p.call p.hist (.outboundEventUpdate id d) :=
                (kept_promise hx (List.mem_of_getElem? hp) hk).1
              obtain ⟨e₀, he₀, hsince⟩ := hI.seen p (List.mem_of_getElem? hp) r hread
              cases o with
              | lost s m => cases hheard
              | failed m => cases hcarried
              | served s =>
                  have hexec : backend.exec (.outboundEventUpdate id d) (.served s) x.world =
                      some (.error fault, y.world) := hexec
                  have heff : (.error fault, y.world) = updateEvent id d x.world :=
                    Backend.exec_served hexec
                  rcases updateEvent_cases id d x.world with ⟨hnone, -⟩ | ⟨hok, -⟩
                  · exact hnone e₀ he₀ (hsince.id.trans hid)
                  · rw [← heff] at hok
                    cases hok
          | _ => cases hrec
    · exact hI.kept p (List.mem_of_getElem? hp) e he

/-- **Nobody is cut off** before the record of an attempt. -/
theorem uncut_step (hI : Tracked x) (hP : current env x l = true) (hs : x.Step y l)
    {q : Process (service env)} (hq : q ∈ y.procs) (hcut : q.prog = none) :
    unburdened env q.call q.hist = true := by
  cases hs with
  | arrive _ _ hprocs =>
      rw [hprocs] at hq
      rcases List.mem_append.mp hq with hq | hq
      · exact hI.uncut q hq hcut
      · rw [List.mem_singleton.mp hq] at hcut
        cases hcut
  | perform _ _ _ hprocs =>
      rw [hprocs] at hq
      rcases List.mem_or_eq_of_mem_set hq with hq | rfl
      · exact hI.uncut q hq hcut
      · cases hcut
  | crash hp _ hprocs =>
      rw [hprocs] at hq
      rcases List.mem_or_eq_of_mem_set hq with hq | rfl
      · exact hI.uncut q hq hcut
      · simpa [current, hp] using hP
  | drift _ hprocs => exact hI.uncut q (hprocs ▸ hq) hcut

/-- **Step lemma.** -/
theorem tracked_step (hx : Reachable env x) (hI : Tracked x) (hP : current env x l = true)
    (hs : x.Step y l) : Tracked y where
  counted e he := by
    cases records_step hx hI hP hs with
    | idle events counts =>
        rw [events] at he
        rw [counts]
        exact hI.counted e he
    | record created fresh counts =>
        rw [counts]
        rcases (Table.mem_create created).mp he with he | rfl
        · exact hI.counted e he
        · -- nobody recorded a delivery of an event that was not there
          rw [fresh]
          by_contra hne
          obtain ⟨e', he', hid⟩ := hI.there e.id (Ne.symm hne)
          have hclash := Table.create_no_clash created he'
          simp [Constrained.clash, hid] at hclash
    | @update id d write there advances counts =>
        obtain ⟨e₀, he₀, rfl⟩ := (Table.mem_update write).mp he
        rw [counts]
        cases hid : e₀.id == id with
        | true =>
            have hid := beq_iff_eq.mp hid
            rw [if_pos rfl, (advances e₀ he₀ hid).2, hI.counted e₀ he₀]
            simp [OutboundEventUpdate.apply, hid]
        | false =>
            have hne : (id == e₀.id) = false := by rw [Bool.beq_comm]; exact hid
            rw [if_neg Bool.false_ne_true, hI.counted e₀ he₀, hne]
            rfl
  there id hid := by
    have hkeep (h : recordedAttempts x id ≠ 0) : ∃ e ∈ World.outboundEvents y.world, e.id = id := by
      obtain ⟨e, he, rfl⟩ := hI.there id h
      obtain ⟨e', he', hadv⟩ := (records_step hx hI hP hs).advances he
      exact ⟨e', he', hadv.id⟩
    cases records_step hx hI hP hs with
    | idle events counts => exact hkeep (counts id ▸ hid)
    | record created fresh counts => exact hkeep (counts id ▸ hid)
    | @update id' d write there advances counts =>
        by_cases heq : id' = id
        · obtain ⟨e, he, rfl⟩ := there
          obtain ⟨e', he', hadv⟩ := (records_step hx hI hP hs).advances he
          exact ⟨e', he', hadv.id.trans heq⟩
        · refine hkeep fun hzero => hid ?_
          rw [counts, hzero]
          simp [heq]
  seen q hq r hread := by
    rcases readEvent_step hs hq hread with ⟨p, hp, hread⟩ | hmem
    · obtain ⟨e, he, hsince⟩ := hI.seen p hp r hread
      obtain ⟨e', he', hadv⟩ := (records_step hx hI hP hs).advances he
      exact ⟨e', he', hsince.trans hadv⟩
    · exact ⟨r, hmem, .refl r⟩
  kept q hq e he := kept_step hx hI hP hs hq he
  uncut q hq hcut := uncut_step hI hP hs hq hcut

theorem tracked_of_follows (hx : Follows (current env) ⟨World.initial, []⟩ x) : Tracked x :=
  hx.invariant (I := Tracked) tracked_initial fun hu hI hP hl =>
    tracked_step hu hI hP (Config.next_step hl)

/-- Who recorded a delivery had completed the attempt. -/
theorem attempted_of_recorded (hx : Reachable env x) {p : Process (service env)} (hp : p ∈ x.procs)
    (hrec : recorded id p.call p.hist = true) : attempted env id p.call p.hist = true := by
  obtain ⟨e, he, hrecords⟩ := List.any_eq_true.mp hrec
  obtain ⟨later, before, hsplit⟩ := List.append_of_mem he
  have hpromise := hx.justified (P := Possible) (R := fun c _ h' => Settled env c h') possible_of_exec
    (fun _ => code_promises _) p hp e before ⟨later, hsplit.symm⟩
  rw [hsplit]
  obtain ⟨op, a⟩ := e
  cases op with
  | outboundEventUpdate id' d =>
      cases a with
      | error _ => cases hrecords
      | ok _ =>
          obtain ⟨hid, hcount⟩ := Bool.and_eq_true_iff.mp hrecords
          obtain rfl := beq_iff_eq.mp hid
          obtain ⟨r, -, -, -, -, -, hatt⟩ := hpromise
          exact attempted_of_append (attempted_cons (hatt (bne_iff_ne.mp hcount)))
  | _ => cases hrecords

/-- Who completed an attempt and is no longer under way recorded it. -/
theorem recorded_of_attempted (hx : Reachable env x) (hI : Tracked x) {p : Process (service env)}
    (hp : p ∈ x.procs) (hrest : p.running = false) (hatt : attempted env id p.call p.hist = true) :
    recorded id p.call p.hist = true := by
  cases hprog : p.prog with
  | none =>
      have hfree := hI.uncut p hp hprog
      have hproc : p.call = .process id := beq_iff_eq.mp (Bool.and_eq_true_iff.mp hatt).1
      rw [hproc] at hatt hfree ⊢
      simpa [unburdened, hatt] using hfree
  | some q =>
      cases q with
      | call op k =>
          rw [Process.running, hprog] at hrest
          cases hrest
      | done r =>
          rcases kept_promise hx hp hprog id hatt with hrec | ⟨e, he, hdrops⟩
          · exact hrec
          · rw [hI.kept p hp e he] at hdrops
            cases hdrops

/-- **Every attempt is recorded,** but those under way. -/
theorem attempts_recorded (hx : Reachable env x) (hI : Tracked x) (id : Uuid) :
    recordedAttempts x id + unrecordedAttempts x id = completedAttempts x id := by
  have hsplit := List.countP_eq_countP_filter_add x.procs
    (fun p => attempted env id p.call p.hist) (fun p => recorded id p.call p.hist)
  rw [List.countP_filter, List.countP_filter] at hsplit
  rw [completedAttempts, Config.countHist, hsplit]
  refine congrArg₂ _ (List.countP_congr fun p hp => ?_) (List.countP_congr fun p hp => ?_)
  · rw [Bool.and_eq_true_iff]
    exact ⟨fun hrec => ⟨attempted_of_recorded hx hp hrec, hrec⟩, And.right⟩
  · simp only [Bool.and_eq_true_iff]
    refine ⟨fun h => ⟨h.1.2, h.2⟩, fun h => ⟨⟨?_, h.1⟩, h.2⟩⟩
    by_contra hrest
    have hrec := recorded_of_attempted hx hI hp (Bool.eq_false_iff.mpr hrest) h.1
    simp [hrec] at h

end Run

/-- **A delivered event stays delivered,** and its count is the number of completed attempts less those
whose record is under way, in every run in which a failure is recorded only on an event nobody recorded a
delivery of since it was read, and no delivery is kept from recording its attempt. -/
theorem delivered_stays (env : Env) {x y : Config (service env)}
    (hx : Follows (current env) ⟨World.initial, []⟩ x) (hxy : Follows (current env) x y) :
    (∀ e ∈ World.outboundEvents x.world, e.status = .delivered →
      ∃ e' ∈ World.outboundEvents y.world, e'.id = e.id ∧ e'.status = .delivered) ∧
    ∀ e ∈ World.outboundEvents y.world,
      e.attemptCount + unrecordedAttempts y e.id = completedAttempts y e.id := by
  refine ⟨fun e he hst => ?_, fun e he => ?_⟩
  swap
  · have hI := tracked_of_follows (hx.trans hxy)
    rw [hI.counted e he]
    exact attempts_recorded (Follows.reaches (hx.trans hxy)) hI e.id
  induction hxy with
  | refl => exact ⟨e, he, rfl, hst⟩
  | @tail y z hrun hstep ih =>
      obtain ⟨l, hP, hl⟩ := hstep
      obtain ⟨e', he', hid, hst'⟩ := ih
      have hy := hx.trans hrun
      obtain ⟨e'', he'', hadv⟩ := (records_step (Follows.reaches hy) (tracked_of_follows hy) hP
        (Config.next_step hl)).advances he'
      exact ⟨e'', he'', hadv.id.trans hid, hadv.stays hst'⟩

namespace Demo

/-- A configuration with the default number of attempts, in which every address is public. -/
def settings : Env where
  maxAttempts := 5
  maxAttempts_pos := by decide
  assertPublicUrl _ _ := none
  decryptSecret := some
  hmac _ _ := ""
  stringify _ _ _ := ""

def merchant : Uuid := ⟨"00000000-0000-4000-8002-000000000001", by decide⟩

def event : Uuid := ⟨"00000000-0000-4000-8002-000000000002", by decide⟩

/-- The merchant's endpoint. -/
def endpoint : WebhookEndpoint := ⟨merchant, "https://hooks.example.com", "whsec", true, .active⟩

def endpoints : Table WebhookEndpoint := ⟨[endpoint], List.pairwise_singleton _ _⟩

/-- An event is recorded for a merchant with an endpoint, and enqueued. -/
def emitted : List (Label (service settings)) :=
  [.drift (.endpoints endpoints),
    .drift (.record event merchant "transaction.protected"
      ⟨event, .paymentProtected, 1000, "NGN", "Phone"⟩),
    .arrive (.dispatch event), .perform 0 (.served {})]

/-- Worker `i` takes the job, and is about to send the event. -/
def takes (i : Nat) : List (Label (service settings)) :=
  .arrive (.process event) :: List.replicate 4 (.perform i (.served {}))

/-- The endpoint answers worker `i`, which does `n` more operations. -/
def answers (i status n : Nat) : List (Label (service settings)) :=
  .perform i (.served { status := status }) :: List.replicate n (.perform i (.served {}))

/-- Four attempts failed. The fifth one stalls before it is answered, and the event is delivered by
another. -/
def overtaken : List (Label (service settings)) :=
  emitted ++ [1, 2, 3, 4].flatMap (fun i => takes i ++ answers i 500 2) ++ takes 5 ++
  .drift (.stall event) :: takes 6 ++ answers 6 200 3

def statuses (w : World) : List (Uuid × OutboundEventStatus × Nat) :=
  w.outboundEvents.rows.map fun e => (e.id, e.status, e.attemptCount)

end Demo

/-- A world with one event in this state. -/
theorem of_statuses {w : World} {s : OutboundEventStatus} {n : Nat}
    (h : Demo.statuses w = [(Demo.event, s, n)]) :
    (∃ e ∈ w.outboundEvents, e.id = Demo.event ∧ e.status = s ∧ e.attemptCount = n) ∧
      ∀ e ∈ w.outboundEvents, e.status = s := by
  obtain ⟨⟨e, he, hrow⟩, hall⟩ := Table.of_map_eq_singleton h
  simp only [Prod.mk.injEq] at hrow hall
  exact ⟨⟨e, he, hrow⟩, fun e he => (hall e he).2.1⟩

set_option maxRecDepth 20000 in
/-- **The failure of the overtaken delivery is written over the success.** -/
theorem delivered_overwritten : ¬ ∀ (env : Env) (x y : Config (service env)), Reachable env x →
    Reaches Guard.free x y →
    (∀ e ∈ World.outboundEvents x.world, e.status = .delivered →
      ∃ e' ∈ World.outboundEvents y.world, e'.id = e.id ∧ e'.status = .delivered) ∧
    ∀ e ∈ World.outboundEvents y.world,
      e.attemptCount + unrecordedAttempts y e.id = completedAttempts y e.id := by
  intro hall
  have hrun : ((Config.run Guard.free Demo.overtaken ⟨World.initial, []⟩).bind fun x =>
      (Config.run Guard.free (Demo.answers 5 500 1) x).map fun y =>
        decide (Demo.statuses x.world = [(Demo.event, .delivered, 5)] ∧
          Demo.statuses y.world = [(Demo.event, .failed, 5)])) = some true := by decide
  obtain ⟨x, y, hx, hxy, htest⟩ := exists_of_runs hrun
  obtain ⟨hdelivered, hfailed⟩ := of_decide_eq_true htest
  obtain ⟨⟨e, he, -, hst, -⟩, -⟩ := of_statuses hdelivered
  obtain ⟨e', he', -, hst'⟩ := (hall _ x y hx hxy).1 e he hst
  rw [(of_statuses hfailed).2 e' he'] at hst'
  cases hst'

set_option maxRecDepth 20000 in
/-- An event that is delivered by the second attempt stays delivered. -/
theorem delivered_stays_second : ∃ x y : Config (service Demo.settings),
    Follows (current _) x y ∧ Demo.statuses x.world = [(Demo.event, .delivered, 2)] ∧
      (∃ e' ∈ World.outboundEvents y.world, e'.status = .delivered) ∧
      completedAttempts x Demo.event = 2 := by
  have hrun : ((Config.follow (current _) (Demo.emitted ++ Demo.takes 1 ++ Demo.answers 1 500 2 ++
      Demo.takes 2 ++ Demo.answers 2 200 2) ⟨World.initial, []⟩).bind fun x =>
        (Config.follow (current _) [.perform 2 (.served {})] x).map fun _ =>
          decide (Demo.statuses x.world = [(Demo.event, .delivered, 2)] ∧
            unrecordedAttempts x Demo.event = 0)) = some true := by decide
  obtain ⟨x, y, hx, hxy, htest⟩ := exists_of_follows hrun
  obtain ⟨hdelivered, hrest⟩ := of_decide_eq_true htest
  obtain ⟨⟨e, he, hid, hst, hcount⟩, -⟩ := of_statuses hdelivered
  obtain ⟨e', he', -, hst'⟩ := (delivered_stays _ hx hxy).1 e he hst
  refine ⟨x, y, hxy, hdelivered, ⟨e', he', hst'⟩, ?_⟩
  rw [← hid] at hrest ⊢
  rw [← (delivered_stays _ hx .refl).2 e he, hcount, hrest]

end Meduman.Outbound
