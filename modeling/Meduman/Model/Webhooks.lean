import Meduman.Model.Payments
import Meduman.Model.Payouts
import Meduman.Text.Hex

/-!
# Paystack webhooks

The signed-webhook processor: signature, replay window, dedupe row, routing.

* `verifyWebhookSignature` : the HMAC check
* `eventKey` : the idempotency key of an event
* `route` : dispatch to the payment and payout services
* `handlePaystackEvent` : the whole processor
-/

set_option autoImplicit false

namespace Meduman

open Effect

/-! ## Signature -/

def verifyWebhookSignature (env : Env) (rawBody signature : String) : Bool :=
  signature != "" && Text.unhex signature.toList == Text.unhex (env.digest rawBody).toList

/-! ## The processor -/

structure WebhookResult where
  duplicate : Bool := false
  handled : Option Bool := none
  stale : Bool := false
deriving DecidableEq, Repr

/-- `payload.data ?? {}` -/
def PaystackWebhookPayload.dataOrEmpty (payload : PaystackWebhookPayload) : PaystackWebhookData :=
  payload.data.getD ⟨none, none, none, none, none, none, none, none, none, none⟩

/-- `data.id ?? data.reference ?? 'unknown'` -/
def PaystackWebhookData.identifier (data : PaystackWebhookData) : String :=
  ((data.id.map EventId.text).or data.reference).getD "unknown"

/-- The idempotency key of an event. -/
def eventKey (payload : PaystackWebhookPayload) : String :=
  payload.event ++ ":" ++ payload.dataOrEmpty.identifier

/-- `data.paid_at ?? data.created_at ?? data.createdAt`, when it is there and is a date. -/
def PaystackWebhookData.stamp (env : Env) (data : PaystackWebhookData) : Option Int :=
  (truthy ((data.paidAt.or data.createdAtSnake).or data.createdAt)).bind env.dateParse

/-- An event with a timestamp older than the window is stale. -/
def isStale (env : Env) (data : PaystackWebhookData) : Program Bool :=
  match data.stamp env with
  | none => pure false
  | some ts => do
      let now ← await .now
      pure (env.webhookMaxAgeSeconds * 1000 < now - ts)

/-- The reason recorded for a failed or reversed transfer. -/
def failureReason (payload : PaystackWebhookPayload) : String :=
  (payload.dataOrEmpty.reason.or payload.dataOrEmpty.status).getD
    ("Paystack reported " ++ payload.event)

/-- Dispatch an event; false when no handler took it. -/
def route (payload : PaystackWebhookPayload) : Program Bool :=
  let reference := truthy payload.dataOrEmpty.reference
  if payload.event = "charge.success" then
    match reference with
    | some reference => handleChargeSuccess reference payload.dataOrEmpty.customerCode .webhook
    | none => pure false
  else if payload.event = "dedicatedaccount.assign.success" then
    match truthy payload.dataOrEmpty.customerCode, payload.dataOrEmpty.dedicatedAccount with
    | some customerCode, some acct =>
        match truthy acct.accountNumber with
        | some accountNumber => do
            let _ ← attachDedicatedAccount customerCode accountNumber (acct.bankName.getD "bank")
              (acct.id.map EventId.text)
            pure true
        | none => pure false
    | _, _ => pure false
  else if payload.event = "transfer.success" then
    match reference, truthy payload.dataOrEmpty.transferCode with
    | some reference, some transferCode => do
        let _ ← markPaid reference transferCode
        pure true
    | _, _ => pure false
  else if payload.event = "transfer.failed" ∨ payload.event = "transfer.reversed" then
    match reference with
    | none => pure false
    | some reference => do
        let _ ← markFailed reference
          (if payload.event = "transfer.reversed" then .reversed else .failed)
          (failureReason payload)
        pure true
  else pure false

/-- Route a recorded event and write down how it went. -/
def processEvent (webhookEventId : Uuid) (payload : PaystackWebhookPayload) :
    Program WebhookResult :=
  (do let handled ← route payload
      await (.webhookEventUpdate webhookEventId (if handled then "ok" else "unhandled"))
      pure { handled := some handled } : Program WebhookResult).tryCatch fun err => do
    await (.webhookEventUpdate webhookEventId ("error: " ++ err.message))
    Prog.throw err

/-- Record an event under its key; none when the key is taken. -/
def recordEvent (payload : PaystackWebhookPayload) : Program (Option Uuid) :=
  (do let record ← await (.webhookEventCreate
        { providerEventId := eventKey payload, eventType := payload.event, rawPayload := payload })
      pure (some record.id) : Program (Option Uuid)).tryCatch fun err =>
    if err.isUniqueViolation then pure none else Prog.throw err

def handlePaystackEvent (env : Env) (rawBody signature : String) : Program WebhookResult :=
  if !verifyWebhookSignature env rawBody signature then
    Prog.throw (.unauthorized "Invalid webhook signature")
  else
    match env.parse rawBody with
    | none => Prog.throw (.plain "Unexpected token in JSON")
    | some payload => do
        if ← isStale env payload.dataOrEmpty then pure { stale := true }
        else
          match ← recordEvent payload with
          | none => pure { duplicate := true }
          | some webhookEventId => processEvent webhookEventId payload

end Meduman
