import Meduman.Effect.Backend
import Meduman.Effect.Policy
import Meduman.Effect.Queue
import Meduman.Model.Schema

/-!
# Outbound webhooks

The outbox of a merchant's events, their delivery to the merchant's endpoint by the jobs of a queue, and
the relay that enqueues what was left behind.

* `Outbound.deliver` : one attempt at delivering an event
* `Outbound.process` : a worker runs the job of an event
* `Outbound.dispatch`, `Outbound.redispatchPending` : the fast path into the queue, and the relay
* `Outbound.service` : any number of these, in any company
-/

set_option autoImplicit false

namespace Meduman.Outbound

open Effect

inductive OutboundEventStatus
  | pending | delivered | failed
deriving DecidableEq, Repr

structure OutboundEvent where
  id : Uuid
  merchantId : Uuid
  type : String
  payload : OutboundPayload
  status : OutboundEventStatus
  attemptCount : Nat
  lastError : Option String
  deliveredAt : Option Int
  createdAt : Int
deriving DecidableEq

instance : Constrained OutboundEvent where
  clash a b := a.id == b.id
  clash_comm _ _ := Bool.beq_comm

inductive WebhookEndpointStatus
  | active | disabled
deriving DecidableEq, Repr

structure WebhookEndpoint where
  merchantId : Uuid
  url : String
  secretEnc : String
  livemode : Bool
  status : WebhookEndpointStatus
deriving DecidableEq

instance : Constrained WebhookEndpoint where
  clash a b := a.merchantId == b.merchantId
  clash_comm _ _ := Bool.beq_comm

/-- The settings, and the functions of the runtime and of the helpers the service rests on. -/
structure Env where
  /-- `WEBHOOK_MAX_ATTEMPTS` -/
  maxAttempts : Nat
  maxAttempts_pos : 0 < maxAttempts
  /-- `assertPublicUrl(url, { allowHttp })`: the message of its refusal -/
  assertPublicUrl : String → Bool → Option String
  /-- `decryptSecret(secretEnc, EAAS_WEBHOOK_SIGNING_KEY)`; none when it throws -/
  decryptSecret : String → Option String
  /-- `createHmac('sha256', secret).update(text).digest('hex')` -/
  hmac : String → String → String
  /-- `JSON.stringify({ id, type, data })` -/
  stringify : Uuid → String → OutboundPayload → String

inductive Err
  | badRequest (message : String)
  | prisma (message : String)
  | plain (message : String)
deriving DecidableEq

def Err.message : Err → String
  | badRequest m | prisma m | plain m => m

/-! ## The world and its operations -/

/-- The columns of a counter an update sets. -/
inductive CountUpdate
  | keep
  | set (n : Nat)
  | increment (n : Nat)
deriving DecidableEq

def CountUpdate.apply : CountUpdate → Nat → Nat
  | keep, n => n
  | set m, _ => m
  | increment m, n => n + m

structure OutboundEventUpdate where
  status : Option OutboundEventStatus := none
  attemptCount : CountUpdate := .keep
  lastError : Option (Option String) := none
  deliveredAt : Option Int := none
deriving DecidableEq

def OutboundEventUpdate.apply (d : OutboundEventUpdate) (e : OutboundEvent) : OutboundEvent :=
  { e with
    status := d.status.getD e.status
    attemptCount := d.attemptCount.apply e.attemptCount
    lastError := d.lastError.getD e.lastError
    deliveredAt := d.deliveredAt.or e.deliveredAt }

structure WebhookRequest where
  url : String
  eventId : Uuid
  signature : String
  body : String
deriving DecidableEq

structure World where
  clock : Int
  outboundEvents : Table OutboundEvent
  endpoints : Table WebhookEndpoint
  /-- The jobs `webhook.<eventId>` -/
  jobs : Queue Uuid

def World.initial : World := ⟨0, .empty, .empty, []⟩

inductive Op
  | outboundEventFindUnique (id : Uuid)
  | outboundEventFindMany (status : OutboundEventStatus) (before : Int) (take : Nat)
  | outboundEventUpdate (id : Uuid) (data : OutboundEventUpdate)
  | webhookEndpointFindUnique (merchantId : Uuid)
  | fetch (request : WebhookRequest)
  | enqueueWebhookDelivery (eventId : Uuid)
  | startJob (eventId : Uuid)
  | completeJob (eventId : Uuid) (start : Nat)
  | failJob (eventId : Uuid) (start : Nat)
  | now
deriving DecidableEq

@[reducible] def Op.Ans : Op → Type
  | outboundEventFindUnique _ => Option OutboundEvent
  | outboundEventFindMany .. => List Uuid
  | outboundEventUpdate .. => Unit
  | webhookEndpointFindUnique _ => Option WebhookEndpoint
  | fetch _ => Nat
  | enqueueWebhookDelivery _ => Unit
  | startJob _ => Nat
  | completeJob .. => Unit
  | failJob .. => Unit
  | now => Int

abbrev Program := Prog Op.Ans Err

abbrev await (op : Op) : Program op.Ans := Prog.perform op

/-- The status an endpoint answers with, and the rows a query without an order returns. -/
structure Supply where
  status : Nat := 0
  rows : List Uuid := []
deriving DecidableEq

/-- `attempts: 5` -/
def deliveryAttempts : Nat := 5

/-- How often a job may stall before it fails. -/
def maxStalledCount : Nat := 1

/-- The events with this status that are older. -/
def selected (status : OutboundEventStatus) (before : Int) (w : World) : List OutboundEvent :=
  w.outboundEvents.filter fun e => e.status == status && decide (e.createdAt < before)

def updateEvent (id : Uuid) (d : OutboundEventUpdate) (w : World) : Except Err Unit × World :=
  match w.outboundEvents.find fun e => e.id == id with
  | none => (.error (.prisma "Record to update not found"), w)
  | some _ =>
      match w.outboundEvents.update (fun e => e.id == id) d.apply with
      | none => (.error (.prisma "Unique constraint failed"), w)
      | some outboundEvents => (.ok (), { w with outboundEvents := outboundEvents })

/-- A worker that no longer holds its job cannot finish it. -/
def finishJob (jobs : Option (Queue Uuid)) (w : World) : Except Err Unit × World :=
  match jobs with
  | none => (.error (.plain "Missing lock for job"), w)
  | some jobs => (.ok (), { w with jobs := jobs })

/-- What a served operation answers, and the world it leaves. -/
def effect (s : Supply) (w : World) : (op : Op) → Except Err op.Ans × World
  | .outboundEventFindUnique id => (.ok (w.outboundEvents.find fun e => e.id == id), w)
  | .outboundEventFindMany .. => (.ok s.rows, w)
  | .outboundEventUpdate id d => updateEvent id d w
  | .webhookEndpointFindUnique merchantId =>
      (.ok (w.endpoints.find fun e => e.merchantId == merchantId), w)
  | .fetch _ => (.ok s.status, w)
  | .enqueueWebhookDelivery eventId => (.ok (), { w with jobs := w.jobs.add eventId })
  | .startJob eventId =>
      match w.jobs.take eventId with
      | none => (.error (.plain "No job"), w)
      | some (start, jobs) => (.ok start, { w with jobs := jobs })
  | .completeJob eventId start => finishJob (w.jobs.complete eventId start) w
  | .failJob eventId start => finishJob (w.jobs.fail deliveryAttempts eventId start) w
  | .now => (.ok w.clock, w)

/-- A query without an order returns any of the rows it selects, as many as it takes. -/
def Op.fits (s : Supply) (w : World) : Op → Bool
  | outboundEventFindMany status before take =>
      let ids := (selected status before w).map OutboundEvent.id
      decide s.rows.Nodup && s.rows.all (fun id => ids.contains id) &&
        s.rows.length == min take ids.length
  | _ => true

def Op.writes : Op → Bool
  | outboundEventUpdate .. | fetch _ | enqueueWebhookDelivery _ | startJob _ | completeJob ..
  | failJob .. => true
  | _ => false

def Op.fallible : Op → Bool
  | now => false
  | _ => true

def Op.fault (message : String) : Op → Err
  | outboundEventFindUnique _ | outboundEventFindMany .. | outboundEventUpdate ..
  | webhookEndpointFindUnique _ => .prisma message
  | _ => .plain message

/-- The database, the endpoints, the queue and the clock. -/
def backend : Backend Op.Ans Err World Supply where
  effect := effect
  fits := Op.fits
  writes := Op.writes
  fallible := Op.fallible
  fault := Op.fault

/-- Time passes, a transition records an event in its own database transaction, merchants change their
endpoints, and the queue finds that a worker is gone. -/
inductive Move
  | tick (elapsed : Nat)
  | record (id merchantId : Uuid) (type : String) (payload : OutboundPayload)
  | endpoints (endpoints : Table WebhookEndpoint)
  | stall (eventId : Uuid)

def drift (m : Move) (w : World) : Option World :=
  match m with
  | .tick elapsed => some { w with clock := w.clock + elapsed }
  | .record id merchantId type payload =>
      (w.outboundEvents.create
        { id := id, merchantId := merchantId, type := type, payload := payload, status := .pending,
          attemptCount := 0, lastError := none, deliveredAt := none, createdAt := w.clock }).map
        fun outboundEvents => { w with outboundEvents := outboundEvents }
  | .endpoints endpoints => some { w with endpoints := endpoints }
  | .stall eventId => some { w with jobs := w.jobs.stall maxStalledCount eventId }

/-! ## Delivery -/

structure DeliveryEndpoint where
  url : String
  secret : String
  livemode : Bool

variable (env : Env)

/-- The endpoint of a merchant with its secret, if it is active. -/
def resolveForDelivery (merchantId : Uuid) : Program (Option DeliveryEndpoint) := do
  match ← await (.webhookEndpointFindUnique merchantId) with
  | none => pure none
  | some row =>
      if row.status ≠ .active then pure none
      else match env.decryptSecret row.secretEnc with
        | none => Prog.throw (.plain "Unsupported state or unable to authenticate data")
        | some secret => pure (some ⟨row.url, secret, row.livemode⟩)

def signPayload (secret : String) (timestampSeconds : Int) (rawBody : String) : String :=
  env.hmac secret (toString timestampSeconds ++ "." ++ rawBody)

def buildSignatureHeader (secret : String) (timestampSeconds : Int) (rawBody : String) : String :=
  "t=" ++ toString timestampSeconds ++ ",v1=" ++ signPayload env secret timestampSeconds rawBody

/-- `res.ok` -/
def isOk (status : Nat) : Bool := 200 ≤ status && status ≤ 299

/-- The `try` of `deliver`: send the event, and record that the endpoint took it. -/
def send (event : OutboundEvent) (endpoint : DeliveryEndpoint) : Program Unit :=
  match env.assertPublicUrl endpoint.url (!endpoint.livemode) with
  | some message => Prog.throw (.badRequest message)
  | none => do
      let rawBody := env.stringify event.id event.type event.payload
      let now ← await .now
      let status ← await (.fetch
        { url := endpoint.url, eventId := event.id,
          signature := buildSignatureHeader env endpoint.secret (now / 1000) rawBody,
          body := rawBody })
      if !isOk status then Prog.throw (.plain ("HTTP " ++ toString status))
      else do
        let deliveredAt ← await .now
        await (.outboundEventUpdate event.id
          { status := some .delivered, deliveredAt := some deliveredAt,
            attemptCount := .increment 1, lastError := some none })

/-- The `catch` of `deliver`: record the failure; the last one, and one for good, is not repeated. -/
def recordFailure (event : OutboundEvent) (err : Err) : Program Unit :=
  let attempts := event.attemptCount + 1
  match err with
  | .badRequest message =>
      await (.outboundEventUpdate event.id
        { attemptCount := .set attempts, lastError := some (some message), status := some .failed })
  | err => do
      let exhausted := decide (env.maxAttempts ≤ attempts)
      await (.outboundEventUpdate event.id
        { attemptCount := .set attempts, lastError := some (some err.message),
          status := if exhausted then some .failed else none })
      if !exhausted then Prog.throw err else pure ()

/-- Deliver one event to the merchant's endpoint. -/
def deliver (eventId : Uuid) : Program Unit := do
  match ← await (.outboundEventFindUnique eventId) with
  | none => pure ()
  | some event =>
    if event.status = .delivered then pure ()
    else do
      match ← resolveForDelivery env event.merchantId with
      | none =>
          await (.outboundEventUpdate eventId
            { status := some .failed, lastError := some (some "no active endpoint") })
      | some endpoint => (send env event endpoint).tryCatch (recordFailure env event)

/-! ## The queue's worker, and its producers -/

/-- A worker runs the job of an event: one attempt, which completes or fails. -/
def process (eventId : Uuid) : Program Unit := do
  let start ← await (.startJob eventId)
  let delivered ← (do
    deliver env eventId
    pure true : Program Bool).tryCatch fun _ => pure false
  if delivered then await (.completeJob eventId start)
  else await (.failJob eventId start)

/-- The fast path after the transition committed; the relay makes up for its failure. -/
def dispatch (eventId : Uuid) : Program Unit :=
  (await (.enqueueWebhookDelivery eventId)).tryCatch fun _ => pure ()

/-- The loop of `redispatchPending`. -/
def enqueueEach : List Uuid → Program Unit
  | [] => pure ()
  | id :: rest => do
      await (.enqueueWebhookDelivery id)
      enqueueEach rest

/-- Enqueue the pending events older than the grace window again. -/
def redispatchPending (graceSeconds : Int) : Program Nat := do
  let now ← await .now
  let rows ← await (.outboundEventFindMany .pending (now - graceSeconds * 1000) 500)
  enqueueEach rows
  pure rows.length

inductive Call
  | dispatch (eventId : Uuid)
  | process (eventId : Uuid)
  | redispatchPending (graceSeconds : Int)
deriving DecidableEq

inductive Reply
  | dispatched
  | processed
  | redispatched (count : Nat)

/-- An event is dispatched after it was recorded, and a worker is started for a job that waits. -/
def admits : Call → World → Bool
  | .dispatch eventId, w => w.outboundEvents.rows.any fun e => e.id == eventId
  | .process eventId, w => w.jobs.any fun j => j.key == eventId && j.status == .waiting
  | _, _ => true

/-- The program of a call. -/
def code : Call → Program Reply
  | .dispatch eventId => (fun _ => Reply.dispatched) <$> dispatch eventId
  | .process eventId => (fun _ => Reply.processed) <$> process env eventId
  | .redispatchPending graceSeconds => Reply.redispatched <$> redispatchPending graceSeconds

/-- Any number of calls, in any company. -/
abbrev service : Service Op.Ans Err where
  World := World
  Choice := Fate Supply
  Move := Move
  Call := Call
  Reply := Reply
  exec := backend.exec
  drift := drift
  admits := admits
  code := code env

/-- The configurations the service can reach. -/
def Reachable (x : Config (service env)) : Prop := Reaches Guard.free ⟨World.initial, []⟩ x

end Meduman.Outbound
