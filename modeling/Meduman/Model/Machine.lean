import Meduman.Model.Schema

/-!
# The transaction state machine

The pure transition function: from a status, an event and a snapshot of context, the next status or
a typed rejection.

* `transition` : the machine
* `edges`, `transition_ok` : its edges, and that it takes no other
* `emitted`, `edges_released`, `edges_funded` : the edges the services take
-/

set_option autoImplicit false

namespace Meduman

/-- Where a payment-verified signal came from. -/
inductive PaymentSource
  | webhook | serverVerify | client
deriving DecidableEq, Repr

def PaymentSource.text : PaymentSource → String
  | webhook => "WEBHOOK"
  | serverVerify => "SERVER_VERIFY"
  | client => "CLIENT"

/-- The events that drive the machine. -/
inductive TransactionEvent
  | sellerPublish
  | cancel
  | buyerInitiateCheckout
  | expire
  | paymentVerified (source : PaymentSource)
  | paymentAbandoned
  | sellerStartDelivery
  | raiseDispute
  | refund
  | sellerMarkDelivered
  | buyerConfirm
  | autoConfirm
  | resolveDisputeForSeller
  | resolveDisputeForBuyer
  | withdrawDispute
  | payoutSucceeded
  | payoutRetry
  | adminIntervention
deriving DecidableEq, Repr

/-- `event.type` -/
def TransactionEvent.type : TransactionEvent → String
  | sellerPublish => "SELLER_PUBLISH"
  | cancel => "CANCEL"
  | buyerInitiateCheckout => "BUYER_INITIATE_CHECKOUT"
  | expire => "EXPIRE"
  | paymentVerified _ => "PAYMENT_VERIFIED"
  | paymentAbandoned => "PAYMENT_ABANDONED"
  | sellerStartDelivery => "SELLER_START_DELIVERY"
  | raiseDispute => "RAISE_DISPUTE"
  | refund => "REFUND"
  | sellerMarkDelivered => "SELLER_MARK_DELIVERED"
  | buyerConfirm => "BUYER_CONFIRM"
  | autoConfirm => "AUTO_CONFIRM"
  | resolveDisputeForSeller => "RESOLVE_DISPUTE_FOR_SELLER"
  | resolveDisputeForBuyer => "RESOLVE_DISPUTE_FOR_BUYER"
  | withdrawDispute => "WITHDRAW_DISPUTE"
  | payoutSucceeded => "PAYOUT_SUCCEEDED"
  | payoutRetry => "PAYOUT_RETRY"
  | adminIntervention => "ADMIN_INTERVENTION"

inductive RejectionReason
  | terminalState
  | illegalTransition
  | clientSourceForbidden
  | disputeOpen
  | releaseRuleForbidsAutoConfirm
  | autoConfirmWindowNotElapsed
deriving DecidableEq, Repr

/-- The facts the machine needs to evaluate guards. -/
structure TransactionContext where
  releaseRule : ReleaseRule
  hasOpenDispute : Bool
  autoConfirmWindowElapsed : Bool
deriving DecidableEq, Repr

/-- A permitted move, or a typed rejection with its message. -/
abbrev TransitionResult := Except (RejectionReason × String) TransactionStatus

def accept (nextState : TransactionStatus) : TransitionResult := .ok nextState

def reject (reason : RejectionReason) (message : String) : TransitionResult :=
  .error (reason, message)

def illegal (from' : TransactionStatus) (event : TransactionEvent) : TransitionResult :=
  reject .illegalTransition
    ("Event " ++ event.type ++ " is not permitted from " ++ from'.text)

/-- The single choke point for entering `RELEASE_PROCESSING`. -/
def enterReleaseProcessing (context : TransactionContext) : TransitionResult :=
  if context.hasOpenDispute then
    reject .disputeOpen "Cannot enter RELEASE_PROCESSING while a dispute is open"
  else accept .releaseProcessing

/-- The rule check precedes the window check. -/
def autoConfirm (context : TransactionContext) : TransitionResult :=
  if context.releaseRule ≠ .autoAfterWindow then
    reject .releaseRuleForbidsAutoConfirm
      ("Auto-confirm not permitted under release rule " ++ context.releaseRule.text)
  else if !context.autoConfirmWindowElapsed then
    reject .autoConfirmWindowNotElapsed "Auto-confirm window has not elapsed"
  else enterReleaseProcessing context

def transition (from' : TransactionStatus) (event : TransactionEvent)
    (context : TransactionContext) : TransitionResult :=
  match from' with
  | .draft =>
      match event with
      | .sellerPublish => accept .linkActive
      | .cancel => accept .cancelled
      | _ => illegal from' event
  | .linkActive =>
      match event with
      | .buyerInitiateCheckout => accept .paymentPending
      | .cancel => accept .cancelled
      | .expire => accept .expired
      | _ => illegal from' event
  | .paymentPending =>
      match event with
      | .paymentVerified source =>
          if source = .client then
            reject .clientSourceForbidden
              "A client-sourced payment event can never protect a transaction"
          else accept .paymentProtected
      | .paymentAbandoned => accept .linkActive
      | .expire => accept .expired
      | _ => illegal from' event
  | .paymentProtected =>
      match event with
      | .sellerStartDelivery => accept .deliveryInProgress
      | .raiseDispute => accept .disputed
      | .refund => accept .refunded
      | _ => illegal from' event
  | .deliveryInProgress =>
      match event with
      | .sellerMarkDelivered => accept .confirmationPending
      | .raiseDispute => accept .disputed
      | _ => illegal from' event
  | .confirmationPending =>
      match event with
      | .buyerConfirm => enterReleaseProcessing context
      | .autoConfirm => autoConfirm context
      | .raiseDispute => accept .disputed
      | _ => illegal from' event
  | .disputed =>
      match event with
      | .resolveDisputeForSeller => enterReleaseProcessing context
      | .resolveDisputeForBuyer => accept .refunded
      | .withdrawDispute => accept .paymentProtected
      | _ => illegal from' event
  | .releaseProcessing =>
      match event with
      | .payoutSucceeded => accept .completed
      | .payoutRetry => enterReleaseProcessing context
      | .adminIntervention => accept .disputed
      | _ => illegal from' event
  | .completed | .refunded | .cancelled | .expired =>
      reject .terminalState (from'.text ++ " is terminal and has no outbound transitions")

/-! ## What an accepted edge tells -/

theorem enterReleaseProcessing_ok {context : TransactionContext} {s : TransactionStatus}
    (h : enterReleaseProcessing context = .ok s) :
    s = .releaseProcessing ∧ context.hasOpenDispute = false := by
  unfold enterReleaseProcessing at h
  split at h
  · cases h
  · rename_i hd
    cases h
    exact ⟨rfl, by simpa using hd⟩

theorem autoConfirm_ok {context : TransactionContext} {s : TransactionStatus}
    (h : autoConfirm context = .ok s) :
    s = .releaseProcessing ∧ context.hasOpenDispute = false := by
  unfold autoConfirm at h
  split at h
  · cases h
  · split at h
    · cases h
    · exact enterReleaseProcessing_ok h

/-- The edges of the machine, with the events that take them. -/
def edges : List (TransactionStatus × TransactionEvent × TransactionStatus) :=
  [(.draft, .sellerPublish, .linkActive), (.draft, .cancel, .cancelled),
   (.linkActive, .buyerInitiateCheckout, .paymentPending), (.linkActive, .cancel, .cancelled),
   (.linkActive, .expire, .expired),
   (.paymentPending, .paymentVerified .webhook, .paymentProtected),
   (.paymentPending, .paymentVerified .serverVerify, .paymentProtected),
   (.paymentPending, .paymentAbandoned, .linkActive), (.paymentPending, .expire, .expired),
   (.paymentProtected, .sellerStartDelivery, .deliveryInProgress),
   (.paymentProtected, .raiseDispute, .disputed), (.paymentProtected, .refund, .refunded),
   (.deliveryInProgress, .sellerMarkDelivered, .confirmationPending),
   (.deliveryInProgress, .raiseDispute, .disputed),
   (.confirmationPending, .buyerConfirm, .releaseProcessing),
   (.confirmationPending, .autoConfirm, .releaseProcessing),
   (.confirmationPending, .raiseDispute, .disputed),
   (.disputed, .resolveDisputeForSeller, .releaseProcessing),
   (.disputed, .resolveDisputeForBuyer, .refunded),
   (.disputed, .withdrawDispute, .paymentProtected),
   (.releaseProcessing, .payoutSucceeded, .completed),
   (.releaseProcessing, .payoutRetry, .releaseProcessing),
   (.releaseProcessing, .adminIntervention, .disputed)]

/-- **Edge inversion.** -/
theorem transition_ok {from' s : TransactionStatus} {event : TransactionEvent}
    {context : TransactionContext} (h : transition from' event context = .ok s) :
    (from', event, s) ∈ edges := by
  cases from' <;> cases event <;> simp only [transition] at h <;> try cases h
  case paymentPending.paymentVerified source =>
      cases source with
      | client => cases h
      | webhook => cases h; simp [edges]
      | serverVerify => cases h; simp [edges]
  case confirmationPending.autoConfirm => rw [(autoConfirm_ok h).1]; simp [edges]
  case confirmationPending.buyerConfirm => rw [(enterReleaseProcessing_ok h).1]; simp [edges]
  case disputed.resolveDisputeForSeller => rw [(enterReleaseProcessing_ok h).1]; simp [edges]
  case releaseProcessing.payoutRetry => rw [(enterReleaseProcessing_ok h).1]; simp [edges]
  all_goals simp [edges]

/-! ## The edges the services take -/

/-- The events the publishing, delivery, confirmation and dispute services drive. -/
def drivenElsewhere : TransactionEvent → Bool
  | .sellerPublish | .cancel | .sellerStartDelivery | .raiseDispute | .sellerMarkDelivered
  | .buyerConfirm | .autoConfirm | .resolveDisputeForSeller | .resolveDisputeForBuyer => true
  | _ => false

/-- The events some service emits. -/
def emitted : TransactionEvent → Bool
  | .buyerInitiateCheckout | .paymentVerified _ | .payoutSucceeded => true
  | event => drivenElsewhere event

/-- The transaction is being released or was. -/
def TransactionStatus.released : TransactionStatus → Bool
  | releaseProcessing | completed => true
  | _ => false

/-- The buyer's money was collected and not returned. -/
def TransactionStatus.funded : TransactionStatus → Bool
  | paymentProtected | deliveryInProgress | confirmationPending | disputed | releaseProcessing
  | completed => true
  | _ => false

theorem edges_released : ∀ e ∈ edges, emitted e.2.1 = true → e.1.released = true →
    e.2.2.released = true := by decide

theorem edges_funded : ∀ e ∈ edges, emitted e.2.1 = true → e.2.2.funded = true →
    e.1.funded = true ∨ e.2.2 = .paymentProtected := by decide

theorem edges_protected : ∀ e ∈ edges, emitted e.2.1 = true → e.2.2 = .paymentProtected →
    e.1 = .paymentPending ∧ ∃ source, e.2.1 = .paymentVerified source := by
  intro e he hem hs
  have h : e.1 = .paymentPending ∧
      (e.2.1 = .paymentVerified .webhook ∨ e.2.1 = .paymentVerified .serverVerify) := by
    revert e
    decide
  exact ⟨h.1, h.2.elim (fun h => ⟨_, h⟩) fun h => ⟨_, h⟩⟩

end Meduman
