import Meduman.Effect.Policy
import Meduman.Model.Invoices
import Meduman.Model.Releases
import Meduman.Model.Webhooks

/-!
# The running system

The calls the modelled services answer, which of them can arrive in a world, and the program of each.

* `authentic` : what Paystack signs
* `Call`, `admits`, `code` : the calls
* `core` : the service they run in, beside services that are not modelled
* `eventful` : where any event may be applied
* `platform` : where disputes, confirmations and invoices change by their own calls only
-/

set_option autoImplicit false

namespace Meduman

open Effect

/-- A payload Paystack can have signed: it reports a charge or a transfer as it stands. -/
def authentic (payload : PaystackWebhookPayload) (w : World) : Bool :=
  match truthy payload.dataOrEmpty.reference with
  | none => true
  | some reference =>
      if payload.event = "charge.success" then w.paystack.charges.contains reference
      else if payload.event = "transfer.success" then
        w.paystack.transfers.any fun t => t.reference == reference && t.settled &&
          (truthy payload.dataOrEmpty.transferCode).all (· == t.transferCode)
      else if payload.event = "transfer.failed" then
        w.paystack.transfers.any fun t => t.reference == reference && t.status == .failed
      else if payload.event = "transfer.reversed" then
        w.paystack.transfers.any fun t => t.reference == reference && t.status == .reversed
      else true

/-- The calls, each by whoever may make it: sellers, buyers, admins, Paystack, workers and crons. -/
inductive Call
  | create (request : Entrypoint)
  | drive (input : ApplyTransitionInput)
  | initializeCollection (input : InitializeCollectionInput)
  | initializeVirtualAccount (transactionId buyerId : Uuid) (email : String)
  | verify (reference : String)
  | reconcilePending
  | paystackWebhook (rawBody signature : String)
  | executeRelease (transactionId : Uuid)
  | retryTransfer (idempotencyKey adminId : String)
  | markPaid (idempotencyKey providerTransferCode : String)
  | markFailed (idempotencyKey : String) (status : FailedStatus) (reason : String)
  | raiseDispute (input : RaiseDisputeInput)
  | resolveDispute (input : ResolveDisputeInput)
  | confirm (transactionId buyerId : Uuid) (reason : Option String)
  | scanAndRelease
  | processRelease (transactionId : Uuid)
  | recoverStalled (transactionId : Uuid)
  | createInvoice (sellerId : Uuid) (dto : CreateInvoiceDto)
  | editInvoice (sellerId id : Uuid) (dto : UpdateInvoiceDto)
  | viewInvoice (publicViewId : String)
  | voidInvoice (sellerId id : Uuid)
  | sendInvoice (sellerId id : Uuid)
  | scanOverdue

inductive Reply
  | transaction (tx : Transaction)
  | collection (result : InitializeCollectionResult)
  | account (view : VirtualAccountView)
  | payment (payment : Payment)
  | reconciled (checked protectedCount : Nat)
  | webhook (result : WebhookResult)
  | payout (payout : Payout)
  | dispute (dispute : Dispute)
  | released (released : Nat)
  | processed
  | invoice (invoice : Invoice)
  | view (view : PublicInvoiceView)
  | overdue (count : Nat)

variable (env : Env)

/-- Nobody but Paystack can sign, and it reports what happened; the payout handlers are reached by
its reports only. -/
def admits : Call → World → Bool
  | .drive input, _ => drivenElsewhere input.event
  | .paystackWebhook rawBody signature, w =>
      if verifyWebhookSignature env rawBody signature then
        (env.parse rawBody).all fun payload => authentic payload w
      else true
  | .markPaid key code, w =>
      w.paystack.transfers.any fun t => t.reference == key && t.settled && t.transferCode == code
  | .markFailed key status _, w =>
      w.paystack.transfers.any fun t => t.reference == key &&
        t.status == (match status with | .failed => .failed | .reversed => TransferStatus.reversed)
  | .processRelease transactionId, w =>
      w.releaseJobs.any fun j => j.transactionId == transactionId && j.state == .waiting
  | .createInvoice _ dto, _ => dto.validate
  | .editInvoice _ _ dto, _ => dto.validate
  | _, _ => true

/-- The program of a call. -/
def code : Call → Program Reply
  | .create request =>
      match request.draft with
      | none => Prog.throw (.plain "Bad Request")
      | some input => Reply.transaction <$> createDraft input
  | .drive input => Reply.transaction <$> apply input
  | .initializeCollection input => Reply.collection <$> initializeCollection env input
  | .initializeVirtualAccount transactionId buyerId email =>
      Reply.account <$> initializeVirtualAccount transactionId buyerId email
  | .verify reference => Reply.payment <$> verifyAndProtect reference .serverVerify
  | .reconcilePending => (fun r => Reply.reconciled r.1 r.2) <$> reconcilePending env
  | .paystackWebhook rawBody signature =>
      Reply.webhook <$> handlePaystackEvent env rawBody signature
  | .executeRelease transactionId => Reply.payout <$> executeRelease transactionId
  | .retryTransfer key adminId => Reply.payout <$> retryTransfer key adminId
  | .markPaid key providerTransferCode => Reply.payout <$> markPaid key providerTransferCode
  | .markFailed key status reason => Reply.payout <$> markFailed key status reason
  | .raiseDispute input => Reply.dispute <$> raise input
  | .resolveDispute input => Reply.dispute <$> resolve input
  | .confirm transactionId buyerId reason =>
      Reply.transaction <$> confirm transactionId buyerId reason
  | .scanAndRelease => Reply.released <$> scanAndRelease env
  | .processRelease transactionId => (fun _ => Reply.processed) <$> processRelease transactionId
  | .recoverStalled transactionId =>
      (fun _ => Reply.processed) <$> await (.stallReleaseJob transactionId)
  | .createInvoice sellerId dto => Reply.invoice <$> Invoices.createDraft sellerId dto
  | .editInvoice sellerId id dto => Reply.invoice <$> Invoices.edit sellerId id dto
  | .viewInvoice publicViewId => Reply.view <$> Invoices.getPublicView publicViewId
  | .voidInvoice sellerId id => Reply.invoice <$> Invoices.void sellerId id
  | .sendInvoice sellerId id => Reply.invoice <$> Invoices.send sellerId id
  | .scanOverdue => Reply.overdue <$> Invoices.scanOverdue

/-- The collection and disbursement core. -/
abbrev core : Service Op.Ans Err where
  World := World
  Choice := Outcome
  Move := Move
  Call := Call
  Reply := Reply
  exec := exec
  drift := drift
  admits := admits env
  code := code env

/-- The configurations the system can reach from the empty world, every operation meeting `G`. -/
def Reachable (G : Guard (core env)) (x : Config (core env)) : Prop :=
  Reaches G ⟨World.initial, []⟩ x

/-! ## The same calls, in other company -/

/-- Any event may be applied, by whoever. -/
def eventfulAdmits (c : Call) (w : World) : Bool :=
  match c with
  | .drive _ => true
  | c => admits env c w

theorem eventfulAdmits_cases {env : Env} {c : Call} {w : World}
    (h : eventfulAdmits env c w = true) :
    (∃ input, c = .drive input) ∨ ((∀ input, c ≠ .drive input) ∧ admits env c w = true) := by
  cases c with
  | drive input => exact .inl ⟨input, rfl⟩
  | _ => exact .inr ⟨fun _ => Call.noConfusion, h⟩

/-- The core where any event may be applied. -/
abbrev eventful : Service Op.Ans Err := (core env).within (eventfulAdmits env) drift

/-- The events a seller drives. -/
def sellerEvent : TransactionEvent → Bool
  | .sellerPublish | .cancel | .sellerStartDelivery | .sellerMarkDelivered => true
  | _ => false

/-- Sellers drive their events; confirmations and disputes come by their own calls. -/
def platformAdmits (c : Call) (w : World) : Bool :=
  match c with
  | .drive input => sellerEvent input.event
  | c => admits env c w

/-- No disputes and no invoices come from elsewhere. -/
def platformDrift (m : Move) (w : World) : Option World :=
  match m with
  | .others users sellerProfiles _ _ => some { w with users, sellerProfiles }
  | m => drift m w

/-- The core where disputes, confirmations and invoices change by their own calls only. -/
abbrev platform : Service Op.Ans Err := (core env).within (platformAdmits env) platformDrift

end Meduman
