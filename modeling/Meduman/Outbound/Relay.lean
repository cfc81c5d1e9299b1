import Mathlib.Data.List.Perm.Subperm
import Mathlib.Data.Nat.Init
import Meduman.Effect.Trace
import Meduman.Outbound.Delivered

/-!
# The relay

The relay enqueues every pending event it finds again. That does nothing for an event whose job was given
up, since the queue keeps such a job under the event's key.

* `persists` : no job is given up while its event is pending
* `process_persists` : an attempt that runs by itself keeps to it
* `Backed`, `backed_step` : what every step keeps then
* **`relay_revives`** : then every event the relay finds has a live job after it, or is no longer pending
* `relay_ignored` : otherwise an event may stay pending with a job that was given up
-/

set_option autoImplicit false

namespace Meduman.Outbound

open Effect

/-- The call performed the operation and saw the answer. -/
def Saw (h : Hist) (op : Op) (a : op.Ans) : Prop := (⟨op, .ok a⟩ : Event Op.Ans Err) ∈ h

/-! ## Events -/

/-- There is an event with this identifier. -/
def Exists (w : World) (id : Uuid) : Prop := ∃ e ∈ w.outboundEvents, e.id = id

/-- The event is pending. -/
def Pending (w : World) (id : Uuid) : Prop := ∃ e ∈ w.outboundEvents, e.id = id ∧ e.status = .pending

/-- The event is delivered, or failed. -/
def Closed (w : World) (id : Uuid) : Prop := ∃ e ∈ w.outboundEvents, e.id = id ∧ e.status ≠ .pending

instance (w : World) (id : Uuid) : Decidable (Pending w id) :=
  inferInstanceAs (Decidable (∃ e ∈ w.outboundEvents.rows, e.id = id ∧ e.status = .pending))

variable {u w : World} {id : Uuid}

theorem Closed.not_pending (hc : Closed w id) : ¬ Pending w id := by
  rintro ⟨e, he, hid, hst⟩
  obtain ⟨e', he', hid', hne⟩ := hc
  rw [same_event he' he (hid'.trans hid.symm)] at hne
  exact hne hst

theorem Pending.exists (h : Pending w id) : Exists w id := by
  obtain ⟨e, he, hid, -⟩ := h
  exact ⟨e, he, hid⟩

/-! ## The condition -/

/-- The operation gives a job up. -/
def Op.givesUp (w : World) : Op → Option Uuid
  | .failJob id start => if w.jobs.givesUp deliveryAttempts id start then some id else none
  | _ => none

/-- No job is given up while its event is pending. -/
def persists (env : Env) : Policy (service env) := fun x l =>
  match l with
  | .perform i _ => match x.pending i with
      | some (_, ⟨op, _⟩) => (op.givesUp x.world).all fun id => !decide (Pending x.world id)
      | none => true
  | .drift (.stall id) =>
      !(World.jobs x.world).stallsOut maxStalledCount id || !decide (Pending x.world id)
  | _ => true

/-! ## What a call promises -/

/-- The call knows of the event. -/
def Knows (c : Call) (h : Hist) (id : Uuid) : Prop :=
  c = .dispatch id ∨ ∃ status before take rows, Saw h (.outboundEventFindMany status before take) rows ∧
    id ∈ rows

/-- The call saw the event delivered, or closed it. -/
def Closes (h : Hist) (id : Uuid) : Prop :=
  (∃ e, Saw h (.outboundEventFindUnique id) (some e) ∧ e.status = .delivered) ∨
    ∃ d, Saw h (.outboundEventUpdate id d) () ∧ (d.status = some .delivered ∨ d.status = some .failed)

/-- A call enqueues events it knows of, starts with its job, and completes it when the event is closed
or gone. -/
def Backs (c : Call) (h : Hist) : Op → Prop
  | .enqueueWebhookDelivery id => Knows c h id
  | .startJob _ => h = []
  | .completeJob id _ => (∃ n, Saw h (.startJob id) n) ∧
      (Saw h (.outboundEventFindUnique id) none ∨ Closes h id)
  | _ => True

/-- A relay that completed enqueued every event it found. -/
def Relays (result : Except Err Reply) (h : Hist) : Prop :=
  ∀ a, result = .ok a → ∀ status before take rows,
    Saw h (.outboundEventFindMany status before take) rows →
      ∀ id ∈ rows, Saw h (.enqueueWebhookDelivery id) ()

variable {env : Env} {c : Call} {h h' : Hist} {α : Type}

theorem Saw.mono {op : Op} {a : op.Ans} (hs : Saw h op a) (hsub : h ⊆ h') : Saw h' op a := hsub hs

theorem Closes.mono (hc : Closes h id) (hsub : h ⊆ h') : Closes h' id := by
  rcases hc with ⟨e, hs, hst⟩ | ⟨d, hs, hst⟩
  · exact .inl ⟨e, hsub hs, hst⟩
  · exact .inr ⟨d, hsub hs, hst⟩

/-- The operation neither starts nor completes a job, enqueues nothing, and is no query for events. -/
def Op.plain : Op → Prop
  | .enqueueWebhookDelivery _ | .startJob _ | .completeJob .. | .outboundEventFindMany .. => False
  | _ => True

/-- No events were queried. -/
def Unqueried (h : Hist) : Prop := ∀ status before take rows,
  ¬ Saw h (.outboundEventFindMany status before take) rows

theorem Unqueried.relays (hh : Unqueried h) (result : Except Err Reply) : Relays result h :=
  fun _ _ status before take rows hsaw => absurd hsaw (hh status before take rows)

theorem unqueried_append {l : Hist} (hl : ∀ e ∈ l, ∀ status before take,
    e.op ≠ .outboundEventFindMany status before take) (hh : Unqueried h) : Unqueried (l ++ h) :=
  fun status before take rows hsaw => (List.mem_append.mp hsaw).elim
    (fun hmem => hl _ hmem status before take rfl) (hh status before take rows)

/-- A call that started its job, and queried no events. -/
structure Started (eventId : Uuid) (start : Nat) (h : Hist) : Prop where
  started : Saw h (.startJob eventId) start
  unqueried : Unqueried h

/-- How a delivery ends: the event is gone, or closed, or the failure is thrown. -/
structure Delivers (eventId : Uuid) (start : Nat) (result : Except Err Unit) (h : Hist) : Prop
    extends Started eventId start h where
  ends : result = .ok () → Saw h (.outboundEventFindUnique eventId) none ∨ Closes h eventId

variable {eventId : Uuid} {start : Nat} {P : Event Op.Ans Err → Prop}

theorem Started.cons {op : Op} {a : Except Err op.Ans} (hs : Started eventId start h)
    (hop : op.plain) : Started eventId start (⟨op, a⟩ :: h) where
  started := List.mem_cons_of_mem _ hs.started
  unqueried status before take rows hsaw := by
    rcases List.mem_cons.mp hsaw with heq | hmem
    · cases heq
      exact hop
    · exact hs.unqueried status before take rows hmem

theorem Started.updated {d : OutboundEventUpdate} {a : Except Err Unit}
    (hs : Started eventId start h) : Started eventId start (⟨.outboundEventUpdate id d, a⟩ :: h) :=
  hs.cons trivial

theorem Started.failed (hs : Started eventId start h) (e : Err) :
    Delivers eventId start (.error e) h := ⟨hs, fun h => by cases h⟩

/-- A delivery of the event that was sent, or whose failure is the last one, closes it. -/
theorem Started.closed {d : OutboundEventUpdate} (hs : Started eventId start h)
    (hst : d.status = some .delivered ∨ d.status = some .failed) {r : Except Err Unit} :
    Delivers eventId start r (⟨.outboundEventUpdate eventId d, .ok ()⟩ :: h) :=
  ⟨hs.cons trivial, fun _ => .inr (.inr ⟨d, List.mem_cons_self, hst⟩)⟩

theorem send_delivers {event : OutboundEvent} {endpoint : DeliveryEndpoint}
    (hid : event.id = eventId) (hs : Started eventId start h) :
    (send env event endpoint).Along P (Backs c) (Delivers eventId start) h := by
  subst hid
  unfold send
  split
  · exact hs.failed _
  · rw [along_perform_bind]
    have hnow {h : Hist} (a : Except Err Int) (hs : Started event.id start h) :
        Started event.id start (⟨.now, a⟩ :: h) := hs.cons trivial
    have hfetch {h : Hist} (request : WebhookRequest) (a : Except Err Nat)
        (hs : Started event.id start h) : Started event.id start (⟨.fetch request, a⟩ :: h) :=
      hs.cons trivial
    refine ⟨trivial, fun _ _ => (hnow _ hs).failed _, fun now _ => ?_⟩
    rw [along_perform_bind]
    refine ⟨trivial, fun _ _ => (hfetch _ _ (hnow _ hs)).failed _, fun status _ => ?_⟩
    split
    · exact (hfetch _ _ (hnow _ hs)).failed _
    · rw [along_perform_bind]
      refine ⟨trivial, fun _ _ => (hnow _ (hfetch _ _ (hnow _ hs))).failed _, fun deliveredAt _ => ?_⟩
      exact (along_perform _ _).mpr ⟨trivial,
        fun _ _ => (Started.updated (hnow _ (hfetch _ _ (hnow _ hs)))).failed _,
        fun _ _ => (hnow _ (hfetch _ _ (hnow _ hs))).closed (.inl rfl)⟩

theorem recordFailure_delivers {event : OutboundEvent} {err : Err} (hid : event.id = eventId)
    (hs : Started eventId start h) :
    (recordFailure env event err).Along P (Backs c) (Delivers eventId start) h := by
  subst hid
  have hlate : (await (.outboundEventUpdate event.id
      { attemptCount := .set (event.attemptCount + 1), lastError := some (some err.message),
        status := if decide (env.maxAttempts ≤ event.attemptCount + 1) then some .failed else none }) >>=
      fun _ => if !decide (env.maxAttempts ≤ event.attemptCount + 1) then Prog.throw err
        else pure ()).Along P (Backs c) (Delivers event.id start) h := by
    rw [along_perform_bind]
    refine ⟨trivial, fun _ _ => hs.updated.failed _, fun _ _ => ?_⟩
    split
    · exact hs.updated.failed _
    · rename_i hlast
      have hlast : decide (env.maxAttempts ≤ event.attemptCount + 1) = true := by simpa using hlast
      exact hs.closed (.inr (by rw [hlast]; rfl))
  cases err with
  | badRequest message =>
      exact (along_perform _ _).mpr ⟨trivial, fun _ _ => hs.updated.failed _,
        fun _ _ => hs.closed (.inr rfl)⟩
  | prisma message => exact hlate
  | plain message => exact hlate

/-- **A delivery that does not throw** found its event gone, or closed it. -/
theorem deliver_delivers (hs : Started eventId start h) :
    (deliver env eventId).Along Possible (Backs c) (Delivers eventId start) h := by
  have hfind (a : Except Err (Option OutboundEvent)) :
      Started eventId start (⟨.outboundEventFindUnique eventId, a⟩ :: h) := hs.cons trivial
  unfold deliver
  rw [along_perform_bind]
  refine ⟨trivial, fun _ _ => (hfind _).failed _, ?_⟩
  rintro (_ | event) hfound
  · exact ⟨hfind _, fun _ => .inl List.mem_cons_self⟩
  dsimp only
  split
  · rename_i hst
    exact ⟨hfind _, fun _ => .inr (.inl ⟨event, List.mem_cons_self, hst⟩)⟩
  have hrow (a : Except Err (Option WebhookEndpoint)) : Started eventId start
      (⟨.webhookEndpointFindUnique event.merchantId, a⟩ ::
        ⟨.outboundEventFindUnique eventId, .ok (some event)⟩ :: h) := (hfind _).cons trivial
  unfold resolveForDelivery
  rw [along_bind, along_perform_bind]
  refine ⟨trivial, fun _ _ => (hrow _).failed _, fun row _ => ?_⟩
  have hmissing : (await (.outboundEventUpdate eventId
      { status := some .failed, lastError := some (some "no active endpoint") })).Along
      Possible (Backs c) (Delivers eventId start)
      (⟨.webhookEndpointFindUnique event.merchantId, .ok row⟩ ::
        ⟨.outboundEventFindUnique eventId, .ok (some event)⟩ :: h) :=
    (along_perform _ _).mpr ⟨trivial, fun _ _ => (hrow _).updated.failed _,
      fun _ _ => (hrow _).closed (.inr rfl)⟩
  cases row with
  | none => exact hmissing
  | some row =>
      dsimp only
      split
      · exact hmissing
      · split
        · exact (hrow _).failed _
        · show Prog.Along _ _ _ ((send env event _).tryCatch (recordFailure env event)) _
          rw [along_tryCatch]
          refine (send_delivers hfound (hrow _)).mono fun result h' hres => ?_
          cases result with
          | ok _ => exact hres
          | error e => exact recordFailure_delivers hfound hres.toStarted

/-- **A worker** completes its job only when the event is gone or closed. -/
theorem process_backs (eventId : Uuid) :
    (process env eventId).Along Possible (Backs c) (fun _ h' => Unqueried h') [] := by
  have hnil : Unqueried [] := fun _ _ _ _ hsaw => absurd hsaw List.not_mem_nil
  unfold process
  rw [along_perform_bind]
  refine ⟨rfl, fun e _ => ?_, fun start _ => ?_⟩
  · exact unqueried_append (l := [⟨.startJob eventId, .error e⟩])
      (fun e he _ _ _ hop => by rw [List.mem_singleton.mp he] at hop; cases hop) hnil
  have hs : Started eventId start [⟨.startJob eventId, .ok start⟩] :=
    ⟨List.mem_cons_self, unqueried_append (l := [⟨.startJob eventId, .ok start⟩])
      (fun e he _ _ _ hop => by rw [List.mem_singleton.mp he] at hop; cases hop) hnil⟩
  rw [along_bind, along_tryCatch, along_bind]
  refine (deliver_delivers hs).mono fun result h' hres => ?_
  have hdone {op : Op} {a : Except Err op.Ans}
      (hop : ∀ status before take, op ≠ .outboundEventFindMany status before take) :
      Unqueried (⟨op, a⟩ :: h') := unqueried_append (l := [⟨op, a⟩])
        (fun e he => by rw [List.mem_singleton.mp he]; exact hop) hres.unqueried
  cases result with
  | ok _ =>
      exact (along_perform _ _).mpr ⟨⟨⟨start, hres.started⟩, hres.ends rfl⟩,
        fun _ _ => hdone fun _ _ _ => Op.noConfusion, fun _ _ => hdone fun _ _ _ => Op.noConfusion⟩
  | error _ =>
      exact (along_perform _ _).mpr ⟨trivial,
        fun _ _ => hdone fun _ _ _ => Op.noConfusion, fun _ _ => hdone fun _ _ _ => Op.noConfusion⟩

/-- The relay's loop enqueues every event, if none of its operations fails. -/
theorem enqueueEach_backs {ids : List Uuid} (hknown : ∀ id ∈ ids, ∀ l, Knows c (l ++ h) id) :
    (enqueueEach ids).Along P (Backs c) (fun result h' => (∃ l, h' = l ++ h ∧ ∀ e ∈ l,
        ∀ status before take, e.op ≠ .outboundEventFindMany status before take) ∧
      (result = .ok () → ∀ id ∈ ids, Saw h' (.enqueueWebhookDelivery id) ())) h := by
  induction ids generalizing h with
  | nil => exact ⟨⟨[], rfl, fun _ he => absurd he List.not_mem_nil⟩,
      fun _ _ hid => absurd hid List.not_mem_nil⟩
  | cons id rest ih =>
      have hnone {a : Except Err Unit} : ∀ e ∈ ([⟨.enqueueWebhookDelivery id, a⟩] : Hist),
          ∀ status before take, e.op ≠ .outboundEventFindMany status before take :=
        fun e he _ _ _ hop => by rw [List.mem_singleton.mp he] at hop; cases hop
      unfold enqueueEach
      rw [along_perform_bind]
      refine ⟨hknown id List.mem_cons_self [], fun e _ => ⟨⟨_, rfl, hnone⟩, fun h => by cases h⟩,
        fun _ _ => ?_⟩
      refine (ih fun id' hid' l => ?_).mono ?_
      · rw [List.append_cons]
        exact hknown id' (List.mem_cons_of_mem _ hid') _
      · rintro result h' ⟨⟨l, rfl, hl⟩, hres⟩
        refine ⟨⟨l ++ [⟨.enqueueWebhookDelivery id, .ok ()⟩], List.append_cons .., fun e he => ?_⟩,
          fun hok id' hid' => ?_⟩
        · exact (List.mem_append.mp he).elim (hl e) (hnone e)
        · rcases List.mem_cons.mp hid' with rfl | hid'
          · exact List.mem_append_right _ List.mem_cons_self
          · exact hres hok id' hid'

theorem redispatchPending_backs (graceSeconds : Int) :
    (redispatchPending graceSeconds).Along P (Backs c) (fun result h' => Relays
      (result.map Reply.redispatched) h') [] := by
  have hnow (a : Except Err Int) : Unqueried [⟨.now, a⟩] := fun _ _ _ _ hsaw => by
    rw [Saw, List.mem_singleton] at hsaw
    cases hsaw
  unfold redispatchPending
  rw [along_perform_bind]
  refine ⟨trivial, fun e _ => (hnow _).relays _, fun now _ => ?_⟩
  rw [along_perform_bind]
  refine ⟨trivial, fun e _ a h => (by cases h), fun rows _ => ?_⟩
  rw [along_bind]
  refine (enqueueEach_backs fun id hid l => .inr ⟨_, _, _, rows,
    List.mem_append_right _ List.mem_cons_self, hid⟩).mono ?_
  rintro result h' ⟨⟨l, rfl, hl⟩, hres⟩
  cases result with
  | error e => exact fun _ h => by cases h
  | ok _ =>
      -- the only query of the call is this one
      intro _ _ status before take rows' hsaw id hid
      rcases List.mem_append.mp hsaw with hmem | hmem
      · exact absurd rfl (hl _ hmem status before take)
      · rcases List.mem_cons.mp hmem with heq | hmem
        · cases heq
          exact hres rfl id hid
        · exact absurd hmem (hnow _ _ _ _ _)

/-- **What every call promises, and what a relay leaves.** -/
theorem code_backs (c : Call) : (code env c).Along Possible (Backs c) Relays [] := by
  cases c with
  | dispatch eventId =>
      rw [code, Prog.map_eq, along_bind, dispatch, along_tryCatch]
      have hnone (a : Except Err Unit) : Unqueried [⟨.enqueueWebhookDelivery eventId, a⟩] :=
        fun _ _ _ _ hsaw => by
          rw [Saw, List.mem_singleton] at hsaw
          cases hsaw
      exact (along_perform _ _).mpr
        ⟨.inl rfl, fun _ _ => (hnone _).relays _, fun _ _ => (hnone _).relays _⟩
  | process eventId =>
      rw [code, Prog.map_eq, along_bind]
      refine (process_backs eventId).mono fun result h' hh => ?_
      cases result <;> exact hh.relays _
  | redispatchPending graceSeconds =>
      rw [code, Prog.map_eq, along_bind]
      refine (redispatchPending_backs graceSeconds).mono fun result h' hh => ?_
      cases result <;> exact hh

/-! ## An attempt by itself -/

/-- The endpoint answers anything or nothing, everything else is served. -/
def anyResponse (op : Op) (o : Fate Supply) : Prop :=
  match op, o with
  | .fetch _, _ => True
  | _, .served _ => True
  | _, _ => False

/-- Every attempt the queue made at delivering the event was counted, and the endpoints' secrets can be
read. -/
structure Deliverable (env : Env) (id : Uuid) (w : World) : Prop where
  counted : ∀ j ∈ w.jobs, j.key = id → ∀ e ∈ w.outboundEvents, e.id = id →
    j.attemptsMade ≤ e.attemptCount
  secrets : ∀ row ∈ w.endpoints, (env.decryptSecret row.secretEnc).isSome = true

section Attempt

variable {u w : World} {event : OutboundEvent} {id : Uuid}

/-- Whatever is answered is served, a request to an endpoint apart. -/
theorem exec_anyResponse {op : Op} {o : Fate Supply} {a : Except Err op.Ans} (ho : anyResponse op o)
    (hop : ∀ request, op ≠ .fetch request) (he : (service env).exec op o u = some (a, w)) :
    ∃ s, (a, w) = effect s u op := by
  cases o with
  | served s => exact ⟨s, Backend.exec_served he⟩
  | lost s message =>
      cases op <;> first | exact ho.elim | exact absurd rfl (hop _)
  | failed message =>
      cases op <;> first | exact ho.elim | exact absurd rfl (hop _)

/-- A request leaves the world as it was. -/
theorem exec_fetch {request : WebhookRequest} {o : Fate Supply} {a : Except Err Nat}
    (he : (service env).exec (.fetch request) o u = some (a, w)) : w = u :=
  Backend.exec_keeps (P := fun w => w = u) he rfl fun _ _ => rfl

/-- A served update of an event that is there goes through. -/
theorem exec_update {d : OutboundEventUpdate} {o : Fate Supply} {a : Except Err Unit}
    (hevent : event ∈ u.outboundEvents) (ho : anyResponse (.outboundEventUpdate event.id d) o)
    (he : (service env).exec (.outboundEventUpdate event.id d) o u = some (a, w)) :
    a = .ok () ∧ w.jobs = u.jobs := by
  obtain ⟨s, heff⟩ := exec_anyResponse ho (fun _ => Op.noConfusion) he
  have hupdate : (a, w) = updateEvent event.id d u := heff
  rcases updateEvent_cases event.id d u with ⟨hnone, -⟩ | ⟨hok, t, -, hw, -⟩
  · exact absurd rfl (hnone event hevent)
  · rw [← hupdate] at hok hw
    exact ⟨hok, by rw [show w = _ from hw]⟩

/-- A failure below the cap is thrown, and only that. -/
theorem recordFailure_ensures (err : Err) {h : Hist} (hevent : event ∈ w.outboundEvents) :
    (recordFailure env event err).Ensures (service env) anyResponse
      (fun r u _ => u.jobs = w.jobs ∧
        ∀ e, r = .error e → event.attemptCount + 1 < env.maxAttempts) w h := by
  unfold recordFailure
  split
  · intro o a u hm he
    obtain ⟨rfl, hjobs⟩ := exec_update hevent hm he
    exact ⟨hjobs, fun _ h => by cases h⟩
  · rw [ensures_perform_bind]
    intro o a u hm he
    obtain ⟨rfl, hjobs⟩ := exec_update hevent hm he
    simp only [Prog.EnsuresThen]
    split
    · rename_i hbelow
      exact ⟨hjobs, fun _ _ => by simpa using hbelow⟩
    · exact ⟨hjobs, fun _ h => by cases h⟩

/-- A request that was sent and not recorded leaves the events and the jobs as they were. -/
theorem send_ensures (endpoint : DeliveryEndpoint) {h : Hist} (hevent : event ∈ w.outboundEvents) :
    (send env event endpoint).Ensures (service env) anyResponse
      (fun r u _ => u.jobs = w.jobs ∧ ∀ e, r = .error e → u = w) w h := by
  unfold send
  split
  · exact ⟨rfl, fun _ _ => rfl⟩
  · rw [ensures_perform_bind]
    intro o a u hm he
    obtain ⟨s, heff⟩ := exec_anyResponse hm (fun _ => Op.noConfusion) he
    cases heff
    simp only [Prog.EnsuresThen]
    rw [ensures_perform_bind]
    intro o a u hm he
    obtain rfl := exec_fetch he
    cases a with
    | error e => exact ⟨rfl, fun _ _ => rfl⟩
    | ok status =>
        simp only [Prog.EnsuresThen]
        split
        · exact ⟨rfl, fun _ _ => rfl⟩
        · rw [ensures_perform_bind]
          intro o a v hm he
          obtain ⟨s, heff⟩ := exec_anyResponse hm (fun _ => Op.noConfusion) he
          cases heff
          intro o a v hm he
          obtain ⟨rfl, hjobs⟩ := exec_update hevent hm he
          exact ⟨hjobs, fun _ h => by cases h⟩

/-- **A delivery fails below the cap only.** -/
theorem deliver_ensures {h : Hist} (hw : Deliverable env id w) :
    (deliver env id).Ensures (service env) anyResponse
      (fun r u _ => u.jobs = w.jobs ∧ ∀ e, r = .error e →
        ∃ event ∈ w.outboundEvents, event.id = id ∧ event.attemptCount + 1 < env.maxAttempts) w h := by
  unfold deliver
  rw [ensures_perform_bind]
  intro o a u hm he
  obtain ⟨s, heff⟩ := exec_anyResponse hm (fun _ => Op.noConfusion) he
  cases heff
  cases hfind : w.outboundEvents.find fun e => e.id == id with
  | none => exact ⟨rfl, fun _ h => by cases h⟩
  | some event =>
      obtain ⟨hevent, hid⟩ := Table.find_spec hfind
      obtain rfl := beq_iff_eq.mp hid
      simp only [Prog.EnsuresThen]
      split
      · exact ⟨rfl, fun _ h => by cases h⟩
      · rw [ensures_bind]
        unfold resolveForDelivery
        rw [ensures_perform_bind]
        intro o a u hm he
        obtain ⟨s, heff⟩ := exec_anyResponse hm (fun _ => Op.noConfusion) he
        cases heff
        have hmissing : ∀ {h : Hist}, (await (.outboundEventUpdate event.id
            { status := some .failed, lastError := some (some "no active endpoint") }) :
              Program Unit).Ensures (service env) anyResponse
              (fun r u _ => u.jobs = w.jobs ∧ ∀ e, r = .error e → ∃ event' ∈ w.outboundEvents,
                event'.id = event.id ∧ event'.attemptCount + 1 < env.maxAttempts) w h := by
          intro h o a u hm he
          obtain ⟨rfl, hjobs⟩ := exec_update hevent hm he
          exact ⟨hjobs, fun _ h => by cases h⟩
        cases hrow : w.endpoints.find fun e => e.merchantId == event.merchantId with
        | none => exact hmissing
        | some row =>
            simp only [Prog.EnsuresThen]
            split
            · exact hmissing
            · obtain ⟨secret, hsecret⟩ := Option.isSome_iff_exists.mp
                (hw.secrets row (Table.find_spec hrow).1)
              rw [hsecret]
              simp only [Prog.pure_eq, ensures_done, Prog.EnsuresThen]
              rw [ensures_tryCatch]
              refine (send_ensures _ hevent).mono fun r u h hsent => ?_
              obtain ⟨hjobs, hsame⟩ := hsent
              cases r with
              | ok _ => exact ⟨hjobs, fun _ h => by cases h⟩
              | error e =>
                  obtain rfl := hsame e rfl
                  refine (recordFailure_ensures e hevent).mono fun r v _ hfailed => ?_
                  obtain ⟨hjobs, hbelow⟩ := hfailed
                  exact ⟨hjobs, fun e he => ⟨event, hevent, rfl, hbelow e he⟩⟩

theorem deliver_uses (id : Uuid) :
    (deliver env id).Uses fun op => ∀ u, op.givesUp u = none := by
  have hupdate : ∀ id d, (await (.outboundEventUpdate id d) : Program Unit).Uses
      fun op => ∀ u, op.givesUp u = none := fun _ _ => uses_perform fun _ => rfl
  unfold deliver
  refine uses_bind (uses_perform fun _ => rfl) fun found => ?_
  cases found with
  | none => trivial
  | some event =>
      dsimp only
      split
      · trivial
      · refine uses_bind ?_ fun endpoint => ?_
        · unfold resolveForDelivery
          refine uses_bind (uses_perform fun _ => rfl) fun row => ?_
          cases row with
          | none => trivial
          | some row =>
              dsimp only
              split
              · trivial
              · split <;> trivial
        · cases endpoint with
          | none => exact hupdate _ _
          | some endpoint =>
              refine uses_tryCatch ?_ fun err => ?_
              · unfold send
                split
                · trivial
                · refine uses_bind (uses_perform fun _ => rfl) fun _ => ?_
                  refine uses_bind (uses_perform fun _ => rfl) fun status => ?_
                  split
                  · trivial
                  · exact uses_bind (uses_perform fun _ => rfl) fun _ => hupdate _ _
              · unfold recordFailure
                split
                · exact hupdate _ _
                · refine uses_bind (hupdate _ _) fun _ => ?_
                  split <;> trivial

/-- **An attempt by itself gives no pending event up:** the last one marks its event failed, and completes
the job. -/
theorem process_heeds {h : Hist} (hcap : env.maxAttempts ≤ deliveryAttempts)
    (hw : Deliverable env id w) : (process env id).Heeds (service env) anyResponse
      (fun _ u op => (op.givesUp u).all (fun id => !decide (Pending u id)) = true) w h := by
  unfold process
  refine heeds_perform_bind rfl fun o start u hm he => ?_
  obtain ⟨s, heff⟩ := exec_anyResponse hm (fun _ => Op.noConfusion) he
  have hstart : ∃ jobs, w.jobs.take id = some (start, jobs) ∧ u = { w with jobs := jobs } := by
    simp only [effect] at heff
    split at heff
    · cases heff
    · rename_i n jobs htake
      cases heff
      exact ⟨jobs, htake, rfl⟩
  obtain ⟨jobs, htake, rfl⟩ := hstart
  refine heeds_bind ?_ ?_
  · refine Prog.Uses.heeds (A := fun op => ∀ u, op.givesUp u = none) ?_
      fun h u op hop => by rw [hop u]; rfl
    exact uses_tryCatch (uses_bind (deliver_uses id) fun _ => trivial) fun _ => trivial
  · have htaken : Deliverable env id { w with jobs := jobs } := ⟨fun j hj hkey e he hid => by
      obtain ⟨i, hi, hkey', hattempts⟩ := Queue.attempts_take htake hj
      rw [← hattempts]
      exact hw.counted i hi (hkey'.trans hkey) e he hid, hw.secrets⟩
    rw [ensures_tryCatch, ensures_bind]
    refine (deliver_ensures htaken).mono fun r v _ hdelivered => ?_
    obtain ⟨hjobs, hbelow⟩ := hdelivered
    cases r with
    | ok _ =>
        intro b hb
        obtain rfl := Except.ok.inj hb
        exact heeds_perform rfl
    | error e =>
        intro b hb
        obtain rfl := Except.ok.inj hb
        obtain ⟨event, hevent, hid, hlt⟩ := hbelow e rfl
        refine heeds_perform ?_
        have hno : v.jobs.givesUp deliveryAttempts id start = false := by
          rw [Queue.givesUp, hjobs, Bool.and_eq_false_iff]
          refine .inr (List.any_eq_false.mpr fun j hj => ?_)
          simp only [Bool.and_eq_true, beq_iff_eq, Bool.not_eq_true', decide_eq_false_iff_not, not_and,
            not_not]
          intro hkey
          have hcount := htaken.counted j hj hkey event hevent hid
          omega
        simp [Op.givesUp, hno]

/-- A worker that nothing disturbs keeps to the condition. -/
theorem process_persists {x : Config (service env)} {i : Nat} {o : Hist} {r : Except Err Reply}
    (hcap : env.maxAttempts ≤ deliveryAttempts) (hx : Deliverable env id x.world)
    (hi : x.procs[i]? = some ⟨.process id, [], some (code env (.process id))⟩)
    (hr : (code env (.process id)).Runs (service env) anyResponse x.world o r w) :
    Follows (persists env) x ⟨w, x.procs.set i ⟨.process id, o ++ [], some (.done r)⟩⟩ := by
  refine Prog.Heeds.follows (G := fun _ u op =>
    (op.givesUp u).all (fun id => !decide (Pending u id)) = true) (fun hi hG => ?_) hi ?_ hr
  · rw [persists, Config.pending_eq hi rfl]
    exact hG
  · exact heeds_bind (process_heeds hcap hx) (ensures_any fun _ _ _ _ _ => trivial)

end Attempt

/-! ## What a step does -/

section Step

variable {x y : Config (service env)} {l : Label (service env)}

/-- What becomes of the events in a step. -/
inductive EventStep (x y : Config (service env)) : Prop
  | same (events : World.outboundEvents y.world = World.outboundEvents x.world)
  | record {e : OutboundEvent}
      (created : (World.outboundEvents x.world).create e = some (World.outboundEvents y.world))
  | update {id : Uuid} {d : OutboundEventUpdate} {r : OutboundEvent} (writes : Writes r d)
      (write : (World.outboundEvents x.world).update (fun e => e.id == id) d.apply =
        some (World.outboundEvents y.world))

theorem eventStep (hx : Reachable env x) (hs : x.Step y l) : EventStep x y := by
  rcases hs.world_cases with hw | ⟨i, o, p, op, k, a, -, hp, hk, he, -⟩ | ⟨m, -, hm⟩
  · exact .same (by rw [hw])
  · cases hop : op.updates with
    | false => exact .same (events_of_not_update he hop)
    | true =>
        cases op with
        | outboundEventUpdate id d =>
            obtain ⟨r, -, -, -, -, hwrites, -⟩ : Promises env p.call p.hist
                (.outboundEventUpdate id d) := (kept_promise hx (List.mem_of_getElem? hp) hk).1
            rcases Backend.exec_cases he with ⟨hw, -⟩ | ⟨s, -, -, hw, -⟩
            · exact .same (by rw [hw])
            · rcases updateEvent_cases id d x.world with ⟨-, hsame, -⟩ | ⟨-, t, ht, hnew, -⟩
              · exact .same (by rw [hw]; exact congrArg World.outboundEvents hsame)
              · have hwrite : (World.outboundEvents x.world).update (fun e => e.id == id) d.apply =
                    some (World.outboundEvents y.world) := by
                  rw [hw]
                  exact ht.trans (congrArg (fun w => some (World.outboundEvents w)) hnew.symm)
                exact .update hwrites hwrite
        | _ => cases hop
  · cases m with
    | record id merchantId type payload =>
        obtain ⟨t, hcreate, hw⟩ := Option.map_eq_some_iff.mp hm
        exact .record (by rw [← hw]; exact hcreate)
    | _ => exact .same (by rw [← Option.some.inj hm])

theorem EventStep.exists (hs : EventStep x y) (h : Exists x.world id) : Exists y.world id := by
  obtain ⟨e, he, hid⟩ := h
  cases hs with
  | same events => exact ⟨e, by rw [events]; exact he, hid⟩
  | record created => exact ⟨e, (Table.mem_create created).mpr (.inl he), hid⟩
  | @update id' d r writes write =>
      cases hsel : e.id == id' with
      | true => exact ⟨_, Table.mem_update_of write he hsel, hid⟩
      | false => exact ⟨e, Table.mem_update_of_not write he hsel, hid⟩

/-- An update never makes an event pending. -/
theorem Writes.status {r e : OutboundEvent} {d : OutboundEventUpdate} (hw : Writes r d)
    (hst : (d.apply e).status = .pending) : e.status = .pending := by
  cases hw with
  | success now => cases hst
  | failure message last => cases last <;> first | exact hst | cases hst
  | unreachable message => cases hst

theorem EventStep.closed (hs : EventStep x y) (h : Closed x.world id) : Closed y.world id := by
  obtain ⟨e, he, hid, hst⟩ := h
  cases hs with
  | same events => exact ⟨e, by rw [events]; exact he, hid, hst⟩
  | record created => exact ⟨e, (Table.mem_create created).mpr (.inl he), hid, hst⟩
  | @update id' d r writes write =>
      cases hsel : e.id == id' with
      | true => exact ⟨_, Table.mem_update_of write he hsel, hid, mt writes.status hst⟩
      | false => exact ⟨e, Table.mem_update_of_not write he hsel, hid, hst⟩

/-- An event that is pending was, or was not there. -/
theorem EventStep.pending (hs : EventStep x y) (h : Pending y.world id) :
    Pending x.world id ∨ ¬ Exists x.world id := by
  obtain ⟨e, he, hid, hst⟩ := h
  cases hs with
  | same events => exact .inl ⟨e, by rw [← events]; exact he, hid, hst⟩
  | record created =>
      rcases (Table.mem_create created).mp he with he | rfl
      · exact .inl ⟨e, he, hid, hst⟩
      · refine .inr fun ⟨e', he', hid'⟩ => ?_
        have hclash := Table.create_no_clash created he'
        simp [Constrained.clash, hid, hid'] at hclash
  | @update id' d r writes write =>
      obtain ⟨e₀, he₀, rfl⟩ := (Table.mem_update write).mp he
      split at hst
      · rename_i hsel
        rw [if_pos hsel] at hid
        exact .inl ⟨e₀, he₀, hid, writes.status hst⟩
      · rename_i hsel
        rw [if_neg hsel] at hid
        exact .inl ⟨e₀, he₀, hid, hst⟩

/-- What an operation does to the jobs, if it does anything. -/
def JobStep (u w : World) : Op → Prop
  | .enqueueWebhookDelivery id => w.jobs = u.jobs.add id
  | .startJob id => ∃ n, u.jobs.take id = some (n, w.jobs)
  | .completeJob id n => u.jobs.complete id n = some w.jobs
  | .failJob id n => u.jobs.fail deliveryAttempts id n = some w.jobs
  | _ => False

theorem jobs_exec {op : Op} {o : Fate Supply} {a : Except Err op.Ans}
    (he : (service env).exec op o u = some (a, w)) : w.jobs = u.jobs ∨ JobStep u w op := by
  rcases Backend.exec_cases he with ⟨hw, -⟩ | ⟨s, -, -, hw, -⟩
  · exact .inl (by rw [hw])
  · subst hw
    have hfinish (jobs : Option (Queue Uuid)) : (finishJob jobs u).2.jobs = u.jobs ∨
        jobs = some (finishJob jobs u).2.jobs := by
      cases jobs with
      | none => exact .inl rfl
      | some jobs => exact .inr rfl
    cases op with
    | enqueueWebhookDelivery id => exact .inr rfl
    | startJob id =>
        simp only [backend, effect, JobStep]
        split
        · exact .inl rfl
        · rename_i n jobs htake
          exact .inr ⟨n, htake⟩
    | completeJob id n => exact hfinish _
    | failJob id n => exact hfinish _
    | outboundEventUpdate id d =>
        refine .inl ?_
        show (updateEvent id d u).2.jobs = u.jobs
        rcases updateEvent_cases id d u with ⟨-, hsame, -⟩ | ⟨-, t, -, hnew, -⟩
        · rw [hsame]
        · rw [hnew]
    | _ => exact .inl rfl

end Step

/-! ## The invariant -/

/-- Jobs are for events; a pending event has no job that was given up, and a live one once it was
enqueued. -/
structure Backed (x : Config (service env)) : Prop where
  known : ∀ p ∈ x.procs, ∀ id, Knows p.call p.hist id → Exists x.world id
  jobs : ∀ id, (World.jobs x.world).Has id → Exists x.world id
  started : ∀ p ∈ x.procs, ∀ id n, Saw p.hist (.startJob id) n →
    Exists x.world id ∧ ¬ Saw p.hist (.outboundEventFindUnique id) none
  closed : ∀ p ∈ x.procs, ∀ id, Closes p.hist id → Closed x.world id
  undead : ∀ id, Pending x.world id → ¬ (World.jobs x.world).Dead id
  enqueued : ∀ p ∈ x.procs, ∀ id, Saw p.hist (.enqueueWebhookDelivery id) () → Exists x.world id
  live : ∀ p ∈ x.procs, ∀ id, Saw p.hist (.enqueueWebhookDelivery id) () → Pending x.world id →
    (World.jobs x.world).Live id

theorem backed_initial : Backed (⟨World.initial, []⟩ : Config (service env)) where
  known _ hp := absurd hp List.not_mem_nil
  jobs _ := fun ⟨_, hj, _⟩ => absurd hj List.not_mem_nil
  started _ hp := absurd hp List.not_mem_nil
  closed _ hp := absurd hp List.not_mem_nil
  undead _ := fun ⟨_, he, _⟩ => absurd he (Table.not_mem_empty _)
  enqueued _ hp := absurd hp List.not_mem_nil
  live _ hp := absurd hp List.not_mem_nil

section Run

variable {x y : Config (service env)} {l : Label (service env)}

/-- What a call promises of its next operation. -/
theorem backs_of_pending (hx : Reachable env x) {p : Process (service env)} (hp : p ∈ x.procs)
    {op : Op} {k : Except Err op.Ans → Program Reply} (hk : p.prog = some (.call op k)) :
    Backs p.call p.hist op :=
  (hx.along (P := Possible) (R := fun _ => Relays) possible_of_exec (fun _ => code_backs _) p hp _ hk).1

/-- What becomes of the jobs in a step. -/
theorem jobs_step (hs : x.Step y l) : World.jobs y.world = World.jobs x.world ∨
    (∃ i o p op k a, l = .perform i o ∧ x.procs[i]? = some p ∧ p.prog = some (.call op k) ∧
      (service env).exec op o x.world = some (a, y.world) ∧ JobStep x.world y.world op) ∨
    ∃ id, l = .drift (.stall id) ∧
      World.jobs y.world = (World.jobs x.world).stall maxStalledCount id := by
  rcases hs.world_cases with hw | ⟨i, o, p, op, k, a, hl, hp, hk, he, -⟩ | ⟨m, hl, hm⟩
  · exact .inl (by rw [hw])
  · exact (jobs_exec he).imp_right fun hj => .inl ⟨i, o, p, op, k, a, hl, hp, hk, he, hj⟩
  · cases m with
    | stall id => exact .inr (.inr ⟨id, hl, by rw [← Option.some.inj hm]⟩)
    | record id merchantId type payload =>
        obtain ⟨t, -, hw⟩ := Option.map_eq_some_iff.mp hm
        exact .inl (by rw [← hw])
    | _ => exact .inl (by rw [← Option.some.inj hm])

/-- A job that is completed is of an event that is closed. -/
theorem closed_of_complete (hx : Reachable env x) (hI : Backed x) {p : Process (service env)}
    (hp : p ∈ x.procs) {n : Nat} {k : Except Err Unit → Program Reply}
    (hk : p.prog = some (.call (.completeJob id n) k)) : Closed x.world id := by
  obtain ⟨⟨m, hstart⟩, hgone | hclosed⟩ := backs_of_pending hx hp hk
  · exact absurd hgone (hI.started p hp id m hstart).2
  · exact hI.closed p hp id hclosed

/-- **A live job of a pending event stays live.** -/
theorem live_step (hx : Reachable env x) (hI : Backed x) (hP : persists env x l = true)
    (hs : x.Step y l) (hpending : Pending x.world id) (hlive : (World.jobs x.world).Live id) :
    (World.jobs y.world).Live id := by
  rcases jobs_step hs with hsame | ⟨i, o, p, op, k, a, rfl, hp, hk, -, hjobs⟩ | ⟨id', rfl, hstall⟩
  · rw [hsame]
    exact hlive
  · cases op with
    | enqueueWebhookDelivery id' => rw [show World.jobs y.world = _ from hjobs]; exact Queue.live_add hlive
    | startJob id' =>
        obtain ⟨n, htake⟩ := hjobs
        exact Queue.live_take htake hlive
    | completeJob id' n =>
        refine Queue.live_complete hjobs (fun heq => ?_) hlive
        subst heq
        exact (closed_of_complete hx hI (List.mem_of_getElem? hp) hk).not_pending hpending
    | failJob id' n =>
        refine Queue.live_fail hjobs (fun heq => ?_) hlive
        subst heq
        rw [persists, Config.pending_eq hp hk] at hP
        cases hgive : (World.jobs x.world).givesUp deliveryAttempts id n with
        | false => rfl
        | true => simp [Op.givesUp, hgive, hpending] at hP
    | _ => exact hjobs.elim
  · rw [hstall]
    refine Queue.live_stall (fun heq => ?_) hlive
    subst heq
    rw [persists, decide_eq_true hpending, Bool.not_true, Bool.or_false] at hP
    exact (Bool.not_eq_true' _).mp hP

/-- **A job of a pending event is not given up.** -/
theorem dead_step (hP : persists env x l = true) (hs : x.Step y l) (hpending : Pending x.world id)
    (hdead : (World.jobs y.world).Dead id) : (World.jobs x.world).Dead id := by
  rcases jobs_step hs with hsame | ⟨i, o, p, op, k, a, rfl, hp, hk, -, hjobs⟩ | ⟨id', rfl, hstall⟩
  · rw [← hsame]
    exact hdead
  · cases op with
    | enqueueWebhookDelivery id' =>
        rw [show World.jobs y.world = _ from hjobs] at hdead
        exact Queue.dead_add hdead
    | startJob id' =>
        obtain ⟨n, htake⟩ := hjobs
        exact Queue.dead_take htake hdead
    | completeJob id' n => exact Queue.dead_complete hjobs hdead
    | failJob id' n =>
        refine (Queue.dead_fail hjobs hdead).resolve_right fun ⟨heq, hgive⟩ => ?_
        subst heq
        rw [persists, Config.pending_eq hp hk] at hP
        simp [Op.givesUp, hgive, hpending] at hP
    | _ => exact hjobs.elim
  · rw [hstall] at hdead
    refine (Queue.dead_stall hdead).resolve_right fun ⟨heq, hout⟩ => ?_
    subst heq
    simp [persists, hout, hpending] at hP

/-- A job is there, or is one for an event some call enqueues. -/
theorem has_step (hx : Reachable env x) (hI : Backed x) (hs : x.Step y l)
    (hhas : (World.jobs y.world).Has id) : Exists x.world id := by
  rcases jobs_step hs with hsame | ⟨i, o, p, op, k, a, rfl, hp, hk, -, hjobs⟩ | ⟨id', rfl, hstall⟩
  · exact hI.jobs id (hsame ▸ hhas)
  · cases op with
    | enqueueWebhookDelivery id' =>
        rw [show World.jobs y.world = _ from hjobs] at hhas
        rcases Queue.has_add hhas with hhas | rfl
        · exact hI.jobs id hhas
        · exact hI.known p (List.mem_of_getElem? hp) id (backs_of_pending hx (List.mem_of_getElem? hp) hk)
    | startJob id' =>
        obtain ⟨n, htake⟩ := hjobs
        exact hI.jobs id (Queue.has_take htake hhas)
    | completeJob id' n => exact hI.jobs id (Queue.has_complete hjobs hhas)
    | failJob id' n => exact hI.jobs id (Queue.has_fail hjobs hhas)
    | _ => exact hjobs.elim
  · exact hI.jobs id (Queue.has_stall (hstall ▸ hhas))

/-- What a call did by the end of a step, and what the step told it. -/
theorem saw_cases (hs : x.Step y l) {q : Process (service env)} (hq : q ∈ y.procs) :
    (∃ p ∈ x.procs, q.hist = p.hist) ∨ q.hist = [] ∨ ∃ p ∈ x.procs, ∃ op k o a,
      p.prog = some (.call op k) ∧ (service env).exec op o x.world = some (a, y.world) ∧
        q.hist = ⟨op, a⟩ :: p.hist := by
  obtain ⟨j, hj⟩ := List.getElem?_of_mem hq
  rcases hs.hist_cases hj with ⟨p, hp, -, hh⟩ | hh | ⟨p, op, k, o, a, hp, hk, -, he, -, hh⟩
  · exact .inl ⟨p, List.mem_of_getElem? hp, hh⟩
  · exact .inr (.inl hh)
  · exact .inr (.inr ⟨p, List.mem_of_getElem? hp, op, k, o, a, hk, he, hh⟩)

theorem known_step (hI : Backed x) (hs : x.Step y l) {q : Process (service env)} (hq : q ∈ y.procs)
    (hk : Knows q.call q.hist id) : Exists x.world id := by
  rcases hk with hcall | ⟨status, before, take, rows, hsaw, hid⟩
  · rcases hs.call_cases hq with ⟨p, hp, hc⟩ | hadm
    · exact hI.known p hp id (.inl (hc ▸ hcall))
    · rw [hcall] at hadm
      obtain ⟨e, he, heid⟩ := List.any_eq_true.mp hadm
      exact ⟨e, he, beq_iff_eq.mp heid⟩
  · have hold {p : Process (service env)} (hp : p ∈ x.procs)
        (hsaw : Saw p.hist (.outboundEventFindMany status before take) rows) : Exists x.world id :=
      hI.known p hp id (.inr ⟨status, before, take, rows, hsaw, hid⟩)
    rcases saw_cases hs hq with ⟨p, hp, hh⟩ | hh | ⟨p, hp, op, k, o, a, -, he, hh⟩
    · exact hold hp (hh ▸ hsaw)
    · rw [hh] at hsaw
      exact absurd hsaw List.not_mem_nil
    · rw [hh] at hsaw
      rcases List.mem_cons.mp hsaw with heq | hsaw
      · cases heq
        obtain ⟨s, hfits, heff⟩ := Backend.exec_ok he
        cases (Prod.mk.inj heff).1
        simp only [backend, Op.fits, Bool.and_eq_true, List.all_eq_true, List.contains_iff_mem] at hfits
        obtain ⟨e, he, heid⟩ := List.mem_map.mp (hfits.1.2 id hid)
        exact ⟨e, (Table.mem_filter.mp he).1, heid⟩
      · exact hold hp hsaw

theorem started_step (hx : Reachable env x) (hI : Backed x) (hs : x.Step y l)
    {q : Process (service env)} (hq : q ∈ y.procs) {n : Nat} (hsaw : Saw q.hist (.startJob id) n) :
    Exists x.world id ∧ ¬ Saw q.hist (.outboundEventFindUnique id) none := by
  rcases saw_cases hs hq with ⟨p, hp, hh⟩ | hh | ⟨p, hp, op, k, o, a, hk, he, hh⟩
  · rw [hh] at hsaw ⊢
    exact hI.started p hp id n hsaw
  · rw [hh] at hsaw
    exact absurd hsaw List.not_mem_nil
  · rw [hh] at hsaw ⊢
    rcases List.mem_cons.mp hsaw with heq | hsaw
    · -- the call has just begun
      cases heq
      have hnil : p.hist = [] := backs_of_pending hx hp hk
      refine ⟨?_, fun hnone => ?_⟩
      · obtain ⟨s, -, heff⟩ := Backend.exec_ok he
        simp only [backend, effect] at heff
        split at heff
        · cases (Prod.mk.inj heff).1
        · rename_i htake
          exact hI.jobs id (Queue.has_of_take htake)
      · rw [hnil, Saw, List.mem_singleton] at hnone
        cases hnone
    · obtain ⟨hexists, hno⟩ := hI.started p hp id n hsaw
      refine ⟨hexists, fun hnone => ?_⟩
      rcases List.mem_cons.mp hnone with heq | hnone
      · cases heq
        obtain ⟨s, -, heff⟩ := Backend.exec_ok he
        obtain ⟨e, he, hid⟩ := hexists
        have hfind := Table.find_none (Except.ok.inj (Prod.mk.inj heff).1) he
        simp [hid] at hfind
      · exact hno hnone

theorem closed_step (hx : Reachable env x) (hI : Backed x) (hs : x.Step y l)
    {q : Process (service env)} (hq : q ∈ y.procs) (hc : Closes q.hist id) : Closed y.world id := by
  have hold {p : Process (service env)} (hp : p ∈ x.procs) (hc : Closes p.hist id) :
      Closed y.world id := (eventStep hx hs).closed (hI.closed p hp id hc)
  rcases saw_cases hs hq with ⟨p, hp, hh⟩ | hh | ⟨p, hp, op, k, o, a, hk, he, hh⟩
  · exact hold hp (hh ▸ hc)
  · rw [hh] at hc
    rcases hc with ⟨_, hsaw, -⟩ | ⟨_, hsaw, -⟩ <;> exact absurd hsaw List.not_mem_nil
  · rw [hh] at hc
    rcases hc with ⟨e, hsaw, hst⟩ | ⟨d, hsaw, hst⟩
    · rcases List.mem_cons.mp hsaw with heq | hsaw
      · cases heq
        obtain ⟨s, -, heff⟩ := Backend.exec_ok he
        obtain ⟨hfind, hw⟩ := Prod.mk.inj heff
        obtain ⟨hmem, hid⟩ := Table.find_spec (Except.ok.inj hfind)
        rw [← hw]
        exact ⟨e, hmem, beq_iff_eq.mp hid, by rw [hst]; exact OutboundEventStatus.noConfusion⟩
      · exact hold hp (.inl ⟨e, hsaw, hst⟩)
    · rcases List.mem_cons.mp hsaw with heq | hsaw
      · cases heq
        obtain ⟨s, -, heff⟩ := Backend.exec_ok he
        replace heff : updateEvent id d x.world = (.ok (), y.world) := heff
        rcases updateEvent_cases id d x.world with ⟨-, -, e, hno⟩ | ⟨-, t, ht, hw, e, he, hid⟩
        · rw [heff] at hno
          cases hno
        · rw [heff] at hw
          replace hw : y.world = { x.world with outboundEvents := t } := hw
          rw [hw]
          refine ⟨d.apply e, Table.mem_update_of ht he (by simp [hid]), hid, ?_⟩
          rcases hst with hst | hst <;> simp [OutboundEventUpdate.apply, hst]
      · exact hold hp (.inr ⟨d, hsaw, hst⟩)

/-- Whoever enqueued an event did so before, or has just added its job. -/
theorem enqueued_cases (hs : x.Step y l) {q : Process (service env)} (hq : q ∈ y.procs)
    (hsaw : Saw q.hist (.enqueueWebhookDelivery id) ()) :
    (∃ p ∈ x.procs, Saw p.hist (.enqueueWebhookDelivery id) ()) ∨
    (World.jobs y.world = (World.jobs x.world).add id ∧ ∃ p ∈ x.procs, ∃ k,
      p.prog = some (.call (.enqueueWebhookDelivery id) k)) := by
  rcases saw_cases hs hq with ⟨p, hp, hh⟩ | hh | ⟨p, hp, op, k, o, a, hk, he, hh⟩
  · exact .inl ⟨p, hp, hh ▸ hsaw⟩
  · rw [hh] at hsaw
    exact absurd hsaw List.not_mem_nil
  · rw [hh] at hsaw
    rcases List.mem_cons.mp hsaw with heq | hsaw
    · cases heq
      obtain ⟨s, -, heff⟩ := Backend.exec_ok he
      exact .inr ⟨(congrArg World.jobs (Prod.mk.inj heff).2).symm, p, hp, k, hk⟩
    · exact .inl ⟨p, hp, hsaw⟩

/-- **Step lemma.** -/
theorem backed_step (hx : Reachable env x) (hI : Backed x) (hP : persists env x l = true)
    (hs : x.Step y l) : Backed y := by
  have hevents := eventStep hx hs
  have henqueued : ∀ q ∈ y.procs, ∀ id, Saw q.hist (.enqueueWebhookDelivery id) () →
      Exists x.world id := fun q hq id hsaw => by
    rcases enqueued_cases hs hq hsaw with ⟨p, hp, hsaw⟩ | ⟨-, p, hp, k, hk⟩
    · exact hI.enqueued p hp id hsaw
    · exact hI.known p hp id (backs_of_pending hx hp hk)
  have hundead : ∀ id, Pending y.world id → ¬ (World.jobs y.world).Dead id := fun id hpending hdead => by
    rcases hevents.pending hpending with hbefore | hnew
    · exact hI.undead id hbefore (dead_step hP hs hbefore hdead)
    · exact hnew (has_step hx hI hs hdead.has)
  exact
    { known := fun q hq id hk => hevents.exists (known_step hI hs hq hk)
      jobs := fun id hhas => hevents.exists (has_step hx hI hs hhas)
      started := fun q hq id n hsaw => (started_step hx hI hs hq hsaw).imp_left hevents.exists
      closed := fun q hq id hc => closed_step hx hI hs hq hc
      undead := hundead
      enqueued := fun q hq id hsaw => hevents.exists (henqueued q hq id hsaw)
      live := fun q hq id hsaw hpending => by
        have hbefore := (hevents.pending hpending).resolve_right
          fun hnew => hnew (henqueued q hq id hsaw)
        rcases enqueued_cases hs hq hsaw with ⟨p, hp, hsaw⟩ | ⟨hadd, -⟩
        · exact live_step hx hI hP hs hbefore (hI.live p hp id hsaw hbefore)
        · rw [hadd]
          exact (Queue.live_or_dead_add id _).resolve_right (hI.undead id hbefore) }

theorem backed_of_follows (hx : Follows (persists env) ⟨World.initial, []⟩ x) : Backed x :=
  hx.invariant (I := Backed) backed_initial fun hu hI hP hl =>
    backed_step hu hI hP (Config.next_step hl)

end Run

/-- An event stays. -/
theorem exists_of_follows {x y : Config (service env)}
    (hx : Follows (persists env) ⟨World.initial, []⟩ x) (hxy : Follows (persists env) x y)
    (h : Exists x.world id) : Exists y.world id := by
  induction hxy with
  | refl => exact h
  | tail hrun hstep ih =>
      obtain ⟨l, -, hl⟩ := hstep
      exact (eventStep (Follows.reaches (hx.trans hrun)) (Config.next_step hl)).exists ih

/-- A query that takes as many rows as there are returns them all. -/
theorem mem_rows_of_fits {s : Supply} {before : Int} {take : Nat}
    (hfits : (Op.outboundEventFindMany .pending before take).fits s w = true)
    (hfew : (selected .pending before w).length ≤ take) {e : OutboundEvent}
    (he : e ∈ selected .pending before w) : e.id ∈ s.rows := by
  simp only [Op.fits, Bool.and_eq_true, decide_eq_true_eq, List.all_eq_true, List.contains_iff_mem,
    beq_iff_eq, List.length_map, Nat.min_eq_right hfew] at hfits
  obtain ⟨⟨hnodup, hsub⟩, hlen⟩ := hfits
  have hperm := (List.subperm_of_subset hnodup hsub).perm_of_length_le
    (Nat.le_of_eq ((List.length_map _).trans hlen.symm))
  exact hperm.mem_iff.mpr (List.mem_map_of_mem he)

/-- **The relay revives what it finds.** In every run in which no job is given up while its event is
pending: when a relay reads at most five hundred pending events past the grace window and completes, every
one of them has a live job, or is no longer pending. -/
theorem relay_revives (env : Env) {x z y : Config (service env)}
    (hx : Follows (persists env) ⟨World.initial, []⟩ x) {i : Nat} {p : Process (service env)}
    {before : Int} {k : Except Err (List Uuid) → Program Reply} (hp : x.procs[i]? = some p)
    (hk : p.prog = some (.call (.outboundEventFindMany .pending before 500) k)) {s : Supply}
    (hread : x.next Guard.free (.perform i (.served s)) = some z)
    (hfew : (selected .pending before x.world).length ≤ 500) (hzy : Follows (persists env) z y)
    {q : Process (service env)} (hq : y.procs[i]? = some q) {reply : Reply}
    (hdone : q.prog = some (.done (.ok reply))) :
    ∀ e ∈ selected .pending before x.world, ∃ e' ∈ World.outboundEvents y.world, e'.id = e.id ∧
      (e'.status ≠ .pending ∨ (World.jobs y.world).Live e.id) := by
  intro e he
  have hz : Follows (persists env) x z :=
    .single ⟨_, by rw [persists, Config.pending_eq hp hk]; rfl, hread⟩
  have hy := hx.trans (hz.trans hzy)
  -- the relay found the event, and enqueued it
  obtain ⟨a, -, hexec, hi⟩ := Config.next_perform hp hk hread
  have hans : a = .ok s.rows :=
    (Prod.mk.inj (Backend.exec_served (B := backend) (s := s) hexec)).1
  have hrow : e.id ∈ s.rows := mem_rows_of_fits (Backend.exec_fits (B := backend) hexec) hfew he
  obtain ⟨q', hq', -, hsuf⟩ := Reaches.hist (Follows.reaches hzy) hi
  obtain rfl : q' = q := Option.some.inj (hq'.symm.trans hq)
  have hmem := List.mem_of_getElem? hq
  have hsaw : Saw q'.hist (.outboundEventFindMany .pending before 500) s.rows := by
    rw [hans] at hsuf
    exact hsuf.subset List.mem_cons_self
  have halong : (Prog.done (.ok reply)).Along Possible (Backs q'.call) Relays q'.hist :=
    (Follows.reaches hy).along (P := Possible) (R := fun _ => Relays) possible_of_exec
      (fun _ => code_backs _) q' hmem _ hdone
  have hrelays : Relays (.ok reply) q'.hist := halong
  have henqueued := hrelays reply rfl _ _ _ _ hsaw e.id hrow
  -- so it has a live job, while it is pending
  obtain ⟨e', he', hid⟩ := exists_of_follows hx (hz.trans hzy)
    ⟨e, (Table.mem_filter.mp he).1, rfl⟩
  refine ⟨e', he', hid, ?_⟩
  by_cases hst : e'.status = .pending
  · exact .inr ((backed_of_follows hy).live q' hmem e.id henqueued ⟨e', he', hid, hst⟩)
  · exact .inl hst

namespace Demo

/-- One attempt more than the queue makes. -/
def patient : Env := { settings with maxAttempts := 6, maxAttempts_pos := by decide }

variable (env : Env)

/-- An event is recorded for a merchant with an endpoint, and enqueued. -/
def recorded : List (Label (service env)) :=
  [.drift (.endpoints endpoints),
    .drift (.record event merchant "transaction.protected"
      ⟨event, .paymentProtected, 1000, "NGN", "Phone"⟩),
    .arrive (.dispatch event), .perform 0 (.served {})]

/-- Worker `i` fails to deliver the event. -/
def fails (i : Nat) : List (Label (service env)) :=
  .arrive (.process event) :: List.replicate 4 (.perform i (.served {})) ++
  .perform i (.served { status := 500 }) :: List.replicate 2 (.perform i (.served {}))

/-- The grace window passes, and the relay is about to read, as process `i`. -/
def relays (i : Nat) : List (Label (service env)) :=
  [.drift (.tick 60001), .arrive (.redispatchPending 60), .perform i (.served {})]

/-- The relay finds the event. -/
def finds (i : Nat) : Label (service env) := .perform i (.served { rows := [event] })

/-- The relay enqueues it. -/
def enqueues (i : Nat) : List (Label (service env)) := [.perform i (.served {})]

/-- The relay, as process `i`, is about to read the pending events, of which there is one. -/
def reading (i : Nat) (x : Config (service env)) : Bool :=
  match x.procs[i]? with
  | some ⟨_, _, some (.call (.outboundEventFindMany .pending 1 500) _)⟩ =>
      decide (statuses x.world = [(event, .pending, 5)] ∨ statuses x.world = [(event, .pending, 0)]) &&
        decide ((selected .pending 1 x.world).map OutboundEvent.id = [event])
  | _ => false

/-- The relay completed. -/
def relayed (i : Nat) (x : Config (service env)) : Bool :=
  match x.procs[i]? with
  | some ⟨_, _, some (.done (.ok _))⟩ => true
  | _ => false

variable {env}

theorem reading_spec {i : Nat} {x : Config (service env)} (h : reading env i x = true) :
    (∃ p k, x.procs[i]? = some p ∧
      p.prog = some (.call (.outboundEventFindMany .pending 1 500) k)) ∧
    ∃ e, selected .pending 1 x.world = [e] ∧ e.id = event := by
  unfold reading at h
  split at h
  · rename_i c hist k hp
    obtain ⟨-, hsel⟩ := Bool.and_eq_true_iff.mp h
    obtain ⟨e, hlist, hid⟩ := List.map_eq_singleton_iff.mp (of_decide_eq_true hsel)
    exact ⟨⟨_, k, hp, rfl⟩, e, hlist, hid⟩
  · cases h

theorem relayed_spec {i : Nat} {x : Config (service env)} (h : relayed env i x = true) :
    ∃ q reply, x.procs[i]? = some q ∧ q.prog = some (.done (.ok reply)) := by
  unfold relayed at h
  split at h
  · rename_i c hist reply hq
    exact ⟨_, reply, hq, rfl⟩
  · cases h

end Demo

set_option maxRecDepth 20000 in
/-- **A job that was given up is not enqueued again,** and its event stays pending. -/
theorem relay_ignored : ¬ ∀ (env : Env) (x z y : Config (service env)), Reachable env x →
    ∀ (i : Nat) (p : Process (service env)) (before : Int)
      (k : Except Err (List Uuid) → Program Reply), x.procs[i]? = some p →
    p.prog = some (.call (.outboundEventFindMany .pending before 500) k) → ∀ s : Supply,
    x.next Guard.free (.perform i (.served s)) = some z →
    (selected .pending before x.world).length ≤ 500 → Reaches Guard.free z y →
    ∀ (q : Process (service env)) (reply : Reply), y.procs[i]? = some q →
    q.prog = some (.done (.ok reply)) →
    ∀ e ∈ selected .pending before x.world, ∃ e' ∈ World.outboundEvents y.world, e'.id = e.id ∧
      (e'.status ≠ .pending ∨ (World.jobs y.world).Live e.id) := by
  intro hall
  have hrun : ((Config.run Guard.free (Demo.recorded Demo.patient ++
      [1, 2, 3, 4, 5].flatMap (Demo.fails _) ++ Demo.relays _ 6) ⟨World.initial, []⟩).bind fun x =>
        (x.next Guard.free (Demo.finds _ 6)).bind fun z =>
          (Config.run Guard.free (Demo.enqueues _ 6) z).map fun y =>
            Demo.reading _ 6 x && Demo.relayed _ 6 y &&
              decide (Demo.statuses y.world = [(Demo.event, .pending, 5)]) &&
              !decide ((World.jobs y.world).Live Demo.event)) = some true := by decide
  obtain ⟨x, hx, hrun⟩ := Option.bind_eq_some_iff.mp hrun
  obtain ⟨z, hz, hrun⟩ := Option.bind_eq_some_iff.mp hrun
  obtain ⟨y, hy, htest⟩ := Option.map_eq_some_iff.mp hrun
  simp only [Bool.and_eq_true, decide_eq_true_eq, Bool.not_eq_true', decide_eq_false_iff_not] at htest
  obtain ⟨⟨⟨hreading, hrelayed⟩, hpending⟩, hdead⟩ := htest
  obtain ⟨⟨p, k, hp, hk⟩, e, hsel, hid⟩ := Demo.reading_spec hreading
  obtain ⟨q, reply, hq, hdone⟩ := Demo.relayed_spec hrelayed
  obtain ⟨e', he', -, hst | hlive⟩ := hall _ x z y (reaches_of_run hx) 6 p 1 k hp hk _ hz
    (by rw [hsel, List.length_singleton]; decide) (reaches_of_run hy) q reply hq hdone e
    (by rw [hsel]; exact List.mem_singleton_self e)
  · exact hst ((of_statuses hpending).2 e' he')
  · rw [hid] at hlive
    exact hdead hlive

set_option maxRecDepth 20000 in
/-- An event whose dispatch was lost is enqueued by the relay. -/
theorem relay_revives_lost : ∃ y : Config (service Demo.settings),
    Follows (persists _) ⟨World.initial, []⟩ y ∧ Demo.statuses y.world = [(Demo.event, .pending, 0)] ∧
      (World.jobs y.world).Live Demo.event := by
  have hrun : ((Config.follow (persists Demo.settings)
      ((Demo.recorded _).take 3 ++ .crash 0 :: Demo.relays _ 1) ⟨World.initial, []⟩).bind fun x =>
        (x.next Guard.free (Demo.finds _ 1)).bind fun z =>
          (Config.follow (persists _) (Demo.enqueues _ 1) z).map fun y =>
            Demo.reading _ 1 x && Demo.relayed _ 1 y && persists _ x (Demo.finds _ 1) &&
              decide (Demo.statuses y.world = [(Demo.event, .pending, 0)])) = some true := by decide
  obtain ⟨x, hx, hrun⟩ := Option.bind_eq_some_iff.mp hrun
  obtain ⟨z, hz, hrun⟩ := Option.bind_eq_some_iff.mp hrun
  obtain ⟨y, hy, htest⟩ := Option.map_eq_some_iff.mp hrun
  simp only [Bool.and_eq_true, decide_eq_true_eq] at htest
  obtain ⟨⟨⟨hreading, hrelayed⟩, hpersists⟩, hpending⟩ := htest
  obtain ⟨⟨p, k, hp, hk⟩, e, hsel, hid⟩ := Demo.reading_spec hreading
  obtain ⟨q, reply, hq, hdone⟩ := Demo.relayed_spec hrelayed
  have hfollow := follows_of_follow hx
  obtain ⟨e', he', -, hst | hlive⟩ := relay_revives _ hfollow hp hk hz
    (by rw [hsel, List.length_singleton]; decide) (follows_of_follow hy) hq hdone e
    (by rw [hsel]; exact List.mem_singleton_self e)
  · exact absurd ((of_statuses hpending).2 e' he') hst
  · rw [hid] at hlive
    exact ⟨y, hfollow.trans (.head ⟨_, hpersists, hz⟩ (follows_of_follow hy)), hpending, hlive⟩

end Meduman.Outbound
