import Meduman.Model.World

/-!
# Transactions

The wrapper over the machine that every service drives a transaction with, the creation of drafts,
and the four entrypoints that admit one.

* `apply` : load, decide, commit under the optimistic guard, dispatch
* `createDraft` : a draft with the defaults of its columns
* `Entrypoint`, `Entrypoint.draft` : what the web, merchant, invoice and chat entrypoints admit
-/

set_option autoImplicit false

namespace Meduman

open Effect

/-- An optional text that JavaScript takes for true. -/
def truthy (s : Option String) : Option String := s.filter (· ≠ "")

/-! ## Outbound events -/

/-- `TYPE_MAP` -/
def outboundType : TransactionEvent → Option String
  | .paymentVerified _ => some "transaction.protected"
  | .cancel => some "transaction.cancelled"
  | .raiseDispute => some "dispute.opened"
  | .resolveDisputeForSeller => some "dispute.resolved"
  | .resolveDisputeForBuyer => some "dispute.resolved"
  | .payoutSucceeded => some "funds.released"
  | _ => none

/-- The outbox row of a transition, for a transaction a merchant owns. -/
def recordForTransition (event : TransactionEvent) (tx : Transaction)
    (status : TransactionStatus) : Option (Uuid × String × OutboundPayload) :=
  match tx.merchantId, outboundType event with
  | some merchantId, some type => some (merchantId, type,
      { transactionId := tx.id, status := status, amount := tx.amount, currency := tx.currency,
        title := tx.title })
  | _, _ => none

/-- Enqueue a delivery after the commit; a failure is swallowed. -/
def dispatch (eventId : Uuid) : Program Unit :=
  (await (.enqueueWebhookDelivery eventId)).tryCatch fun _ => pure ()

/-! ## Applying an event -/

def freezingDisputeStatuses : List DisputeStatus := [.open, .underReview]

/-- `TIMELINE_TYPE` -/
def timelineType : TransactionEvent → String
  | .sellerPublish => "link.activated"
  | .cancel => "transaction.cancelled"
  | .buyerInitiateCheckout => "payment.initiated"
  | .expire => "transaction.expired"
  | .paymentVerified _ => "payment.protected"
  | .paymentAbandoned => "payment.abandoned"
  | .sellerStartDelivery => "delivery.started"
  | .raiseDispute => "dispute.raised"
  | .refund => "transaction.refunded"
  | .sellerMarkDelivered => "delivery.marked"
  | .buyerConfirm => "delivery.confirmed"
  | .autoConfirm => "delivery.auto_confirmed"
  | .resolveDisputeForSeller => "dispute.resolved_release"
  | .resolveDisputeForBuyer => "dispute.resolved_refund"
  | .withdrawDispute => "dispute.withdrawn"
  | .payoutSucceeded => "payout.completed"
  | .payoutRetry => "payout.retry"
  | .adminIntervention => "admin.intervention"

structure TransitionActor where
  id : Option String := none
  type : ActorType
  role : Option String := none
deriving DecidableEq

structure ApplyTransitionInput where
  transactionId : Uuid
  event : TransactionEvent
  actor : TransitionActor
  reason : Option String := none
  hasOpenDispute : Option Bool := none
  autoConfirmWindowElapsed : Option Bool := none
deriving DecidableEq

/-- The context of the machine, from the loaded transaction and its freezing disputes. -/
def ApplyTransitionInput.context (input : ApplyTransitionInput) (tx : Transaction)
    (disputes : List Dispute) : TransactionContext where
  releaseRule := tx.releaseRule
  hasOpenDispute := input.hasOpenDispute.getD !disputes.isEmpty
  autoConfirmWindowElapsed := input.autoConfirmWindowElapsed.getD false

/-- The rows a permitted transition writes. -/
def ApplyTransitionInput.write (input : ApplyTransitionInput) (tx : Transaction)
    (nextState : TransactionStatus) : TransitionWrite where
  transactionId := input.transactionId
  oldState := tx.status
  newState := nextState
  timeline :=
    { transactionId := input.transactionId
      actorId := input.actor.id
      actorRole := input.actor.role
      type := timelineType input.event
      oldState := tx.status.text
      newState := nextState.text
      reason := truthy input.reason }
  audit :=
    { actorId := input.actor.id
      actorType := input.actor.type
      action := "transaction.status_change"
      targetType := "Transaction"
      targetId := some input.transactionId.text
      reason := input.reason
      metadata := [("event", .str input.event.type), ("from", .str tx.status.text),
        ("to", .str nextState.text)] }
  outbound := recordForTransition input.event tx nextState

def apply (input : ApplyTransitionInput) : Program Transaction := do
  match ← await (.transactionFindWithDisputes input.transactionId freezingDisputeStatuses) with
  | none => Prog.throw (.notFound ("Transaction " ++ input.transactionId.text ++ " not found"))
  | some (tx, disputes) =>
    match transition tx.status input.event (input.context tx disputes) with
    | .error (reason, message) => Prog.throw (.transitionRejected reason message)
    | .ok nextState => do
      let (updatedTx, outboundEventId) ← await (.commitTransition (input.write tx nextState))
      match outboundEventId with
      | none => pure updatedTx
      | some eventId => do
        dispatch eventId
        pure updatedTx

/-! ## Drafts -/

structure CreateDraftInput where
  sellerId : Uuid
  title : String
  amount : Int
  description : Option String := none
  currency : Option String := none
  releaseRule : Option ReleaseRule := none
  feeModel : Option FeeModel := none
  feeAmount : Option Int := none
  expectedDeliveryDate : Option Int := none
  merchantId : Option Uuid := none
  origin : Option TransactionOrigin := none
deriving DecidableEq

/-- The row of a draft, with the defaults of the columns left out. -/
def CreateDraftInput.create (input : CreateDraftInput) (publicLinkId : String) :
    TransactionCreate where
  sellerId := input.sellerId
  title := input.title
  amount := input.amount
  publicLinkId := publicLinkId
  status := .draft
  origin := input.origin.getD .web
  description := truthy input.description
  currency := (truthy input.currency).getD "NGN"
  releaseRule := input.releaseRule.getD .buyerConfirmation
  feeModel := input.feeModel.getD .buyerPays
  feeAmount := input.feeAmount.getD 0
  expectedDeliveryDate := input.expectedDeliveryDate
  merchantId := input.merchantId

/-- Add a role flag to the user mirror if it is not there. -/
def grantRoleFlag (userId : Uuid) (flag : UserRole) : Program Unit := do
  match ← await (.userFindUnique userId) with
  | none => pure ()
  | some user =>
    if user.roleFlags.contains flag then pure ()
    else await (.userUpdateRoleFlags userId (user.roleFlags ++ [flag]))

def createDraft (input : CreateDraftInput) : Program Transaction := do
  let uuid ← await .randomUUID
  let tx ← await (.transactionCreate (input.create uuid.hex))
  grantRoleFlag input.sellerId .seller
  pure tx

/-! ## Entrypoints -/

/-- `CreateTransactionDto`; `IsInt` is the type of the amounts. -/
structure CreateTransactionDto where
  title : String
  description : Option String := none
  amount : Int
  releaseRule : Option ReleaseRule := none
  feeModel : Option FeeModel := none
  feeAmount : Option Int := none
deriving DecidableEq

/-- `MinLength(1)`, `MaxLength(…)`, `IsPositive`; the fee has no bound. -/
def CreateTransactionDto.validate (dto : CreateTransactionDto) : Bool :=
  1 ≤ dto.title.length && dto.title.length ≤ 200 &&
    dto.description.all (·.length ≤ 2000) && 0 < dto.amount

/-- `CreateV1TransactionDto` -/
structure CreateV1TransactionDto where
  sellerId : Uuid
  title : String
  amount : Int
  description : Option String := none
  currency : Option String := none
  releaseRule : Option ReleaseRule := none
deriving DecidableEq

def CreateV1TransactionDto.validate (dto : CreateV1TransactionDto) : Bool :=
  dto.title.length ≤ 200 && 1 ≤ dto.amount && dto.description.all (·.length ≤ 1000) &&
    dto.currency.all (·.length ≤ 8)

/-- The invoice fields `send` reads. -/
structure InvoiceDraft where
  status : InvoiceStatus
  number : String
  total : Int
  currency : String
deriving DecidableEq

/-- The conversational draft; the amount it holds was captured, so it is positive. -/
structure ChatDraft where
  title : Option String := none
  amountKobo : Option Int := none
  positive : ∀ kobo ∈ amountKobo, 0 < kobo := by simp
deriving DecidableEq

/-- `captureAmount`, on what `parseNairaToKobo` made of the text; none is the refusal. -/
def captureAmount (draft : ChatDraft) (kobo : Option Int) : Option ChatDraft :=
  match kobo with
  | none => none
  | some kobo =>
      if h : kobo ≤ 0 then none
      else some { draft with
        amountKobo := some kobo
        positive := fun k hk => by cases hk; exact Int.not_le.mp h }

/-- The first characters of a text. -/
def slice (s : String) (n : Nat) : String := String.ofList (s.toList.take n)

/-- `captureTitle` -/
def captureTitle (draft : ChatDraft) (text : String) : Option ChatDraft :=
  if text = "" then none else some { draft with title := some (slice text 120) }

/-- A request that creates a transaction. -/
inductive Entrypoint
  | web (sellerId : Uuid) (dto : CreateTransactionDto)
  | v1 (merchantId : Uuid) (dto : CreateV1TransactionDto)
  | invoice (sellerId : Uuid) (row : InvoiceDraft)
  | chat (userId : Uuid) (draft : ChatDraft) (text : String) (origin : TransactionOrigin)

/-- `/^skip$/i` -/
def isSkip (text : String) : Bool := text.toList.map Char.toLower == ['s', 'k', 'i', 'p']

/-- The draft an entrypoint asks for; none when it refuses. -/
def Entrypoint.draft : Entrypoint → Option CreateDraftInput
  | web sellerId dto =>
      if dto.validate then
        some { sellerId := sellerId, title := dto.title, amount := dto.amount, origin := some .web,
               description := truthy dto.description, releaseRule := dto.releaseRule,
               feeModel := dto.feeModel, feeAmount := dto.feeAmount }
      else none
  | v1 merchantId dto =>
      if dto.validate then
        some { merchantId := some merchantId, sellerId := dto.sellerId, title := dto.title,
               amount := dto.amount, origin := some .eaas, description := truthy dto.description,
               currency := truthy dto.currency, releaseRule := dto.releaseRule }
      else none
  | invoice sellerId row =>
      if row.status ≠ .draft ∨ row.total ≤ 0 then none
      else
        some { sellerId := sellerId
               title := if row.number = "" then "Invoice" else row.number
               amount := row.total, currency := some row.currency, origin := some .web }
  | chat userId draft text origin =>
      match truthy draft.title, draft.amountKobo.filter (· ≠ 0) with
      | some title, some amountKobo =>
          some { sellerId := userId, title := title, amount := amountKobo, origin := some origin
                 description := if isSkip text then none else truthy (some (slice text 500)) }
      | _, _ => none

end Meduman
