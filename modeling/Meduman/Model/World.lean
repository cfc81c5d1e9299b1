import Meduman.Effect.Serial
import Meduman.Model.Machine

/-!
# The world and its operations

The database, the job queues and Paystack, and every operation the modelled services await on them.
An operation is served, fails with nothing done, or is done while its answer is lost.

* `World` : the tables, the queues, Paystack's charges, transfers and verification answers
* `Op`, `Op.Ans` : the awaited operations and their answers
* `effect` : what a served operation answers and changes
* `exec` : its outcomes, failures included
* `drift` : time, Paystack, and the services that are not modelled
-/

set_option autoImplicit false

namespace Meduman

open Effect

/-! ## Errors -/

/-- What a service or the client under it throws. -/
inductive Err
  | notFound (message : String)
  | conflict (message : String)
  | unprocessable (message : String)
  | badRequest (message : String)
  | forbidden (message : String)
  | unauthorized (message : String)
  | badGateway (message : String)
  | plain (message : String)
  | prisma (code : String) (message : String)
  | transitionRejected (reason : RejectionReason) (message : String)
  | amountMismatch (reference : String) (expected actual : Int)
deriving DecidableEq

/-- `err.message` -/
def Err.message : Err → String
  | notFound m | conflict m | unprocessable m | badRequest m | forbidden m => m
  | unauthorized m | badGateway m | plain m => m
  | prisma _ m | transitionRejected _ m => m
  | amountMismatch reference expected actual =>
      "Payment " ++ reference ++ " amount mismatch: expected " ++ toString expected ++
        " kobo, got " ++ toString actual ++ " kobo"

/-- `err.code === 'P2002'` -/
def Err.isUniqueViolation : Err → Bool
  | prisma code _ => code == "P2002"
  | _ => false

def uniqueViolation : Err := .prisma "P2002" "Unique constraint failed"

def recordNotFound : Err := .prisma "P2025" "Record to update not found"

/-- A value outside the 32 bits of an `Int` column. -/
def valueOutOfRange : Err := .prisma "P2020" "Value out of range for the type"

/-- The values of an `Int` column. -/
def fitsInt4 (n : Int) : Bool := -2147483648 ≤ n && n ≤ 2147483647

/-! ## Paystack -/

inductive TransferStatus
  | pending | success | failed | reversed
deriving DecidableEq, Repr

def TransferStatus.text : TransferStatus → String
  | pending => "pending"
  | success => "success"
  | failed => "failed"
  | reversed => "reversed"

/-- A transfer at Paystack; `settled` records that it succeeded at some time. -/
structure Transfer where
  reference : String
  transferCode : String
  amount : Int
  recipient : String
  reason : String
  status : TransferStatus
  settled : Bool
deriving DecidableEq

/-- Paystack's side: the references of its charges, its transfers, and every answer a charge
verification returned. -/
structure Paystack where
  charges : List String
  transfers : List Transfer
  verified : List VerifyTransactionResult
deriving DecidableEq

/-! ## The world -/

structure ChatOutboundJobData where
  userId : Uuid
  templateKey : String
  data : List (String × Scalar)
deriving DecidableEq

inductive JobState
  | waiting | active | failed
deriving DecidableEq, Repr

/-- The job `release.<transactionId>`; a completed one is removed. `starts` counts how often a worker
took it, `stalls` how often one lost it. -/
structure ReleaseJob where
  transactionId : Uuid
  state : JobState
  attemptsMade : Nat
  starts : Nat
  stalls : Nat
deriving DecidableEq

structure World where
  clock : Int
  users : Table User
  sellerProfiles : Table SellerProfile
  transactions : Table Transaction
  disputes : Table Dispute
  invoices : Table Invoice
  invoiceCounters : Table InvoiceCounter
  payments : Table Payment
  payouts : Table Payout
  webhookEvents : Table WebhookEvent
  timeline : List TimelineEvent
  /-- The `createdAt` of the timeline rows, in their order. -/
  timelineCreatedAt : List Int
  auditLogs : List AuditLog
  outboundEvents : List OutboundEvent
  chatOutbound : List ChatOutboundJobData
  webhookDeliveries : List Uuid
  invoiceDeliveries : List Uuid
  releaseJobs : List ReleaseJob
  paystack : Paystack

/-- The world before the first call. -/
def World.initial : World where
  clock := 0
  users := .empty
  sellerProfiles := .empty
  transactions := .empty
  disputes := .empty
  invoices := .empty
  invoiceCounters := .empty
  payments := .empty
  payouts := .empty
  webhookEvents := .empty
  timeline := []
  timelineCreatedAt := []
  auditLogs := []
  outboundEvents := []
  chatOutbound := []
  webhookDeliveries := []
  invoiceDeliveries := []
  releaseJobs := []
  paystack := ⟨[], [], []⟩

/-! ## Operations -/

inductive TransactionKey
  | id (id : Uuid)
  | publicLinkId (publicLinkId : String)
deriving DecidableEq

def TransactionKey.selects (k : TransactionKey) (t : Transaction) : Bool :=
  match k with
  | id i => t.id == i
  | publicLinkId l => t.publicLinkId == l

structure TransactionCreate where
  sellerId : Uuid
  title : String
  amount : Int
  publicLinkId : String
  status : TransactionStatus
  origin : TransactionOrigin
  description : Option String
  currency : String
  releaseRule : ReleaseRule
  feeModel : FeeModel
  feeAmount : Int
  expectedDeliveryDate : Option Int
  merchantId : Option Uuid
deriving DecidableEq

def TransactionCreate.row (d : TransactionCreate) (id : Uuid) : Transaction where
  id := id
  publicLinkId := d.publicLinkId
  sellerId := d.sellerId
  buyerId := none
  title := d.title
  description := d.description
  amount := d.amount
  currency := d.currency
  status := d.status
  releaseRule := d.releaseRule
  expectedDeliveryDate := d.expectedDeliveryDate
  feeModel := d.feeModel
  feeAmount := d.feeAmount
  merchantId := d.merchantId
  origin := d.origin

/-- What the callback of `apply` writes in one database transaction. -/
structure TransitionWrite where
  transactionId : Uuid
  oldState : TransactionStatus
  newState : TransactionStatus
  timeline : TimelineEvent
  audit : AuditLog
  outbound : Option (Uuid × String × OutboundPayload)
deriving DecidableEq

structure PayoutCreate where
  transactionId : Uuid
  sellerId : Uuid
  idempotencyKey : String
  amount : Int
  currency : String
  status : PayoutStatus
  merchantId : Option Uuid
deriving DecidableEq

def PayoutCreate.row (d : PayoutCreate) (id : Uuid) : Payout where
  id := id
  transactionId := d.transactionId
  sellerId := d.sellerId
  idempotencyKey := d.idempotencyKey
  providerTransferCode := none
  providerTransferReference := none
  amount := d.amount
  currency := d.currency
  status := d.status
  attemptCount := 0
  lastError := none
  merchantId := d.merchantId

/-- The `data` of a payout update; an absent column keeps its value. -/
structure PayoutUpdate where
  status : Option PayoutStatus := none
  providerTransferCode : Option (Option String) := none
  providerTransferReference : Option (Option String) := none
  attemptCountIncrement : Nat := 0
  lastError : Option (Option String) := none
deriving DecidableEq

def PayoutUpdate.apply (d : PayoutUpdate) (p : Payout) : Payout :=
  { p with
    status := d.status.getD p.status
    providerTransferCode := d.providerTransferCode.getD p.providerTransferCode
    providerTransferReference := d.providerTransferReference.getD p.providerTransferReference
    attemptCount := p.attemptCount + d.attemptCountIncrement
    lastError := d.lastError.getD p.lastError }

inductive PaymentKey
  | id (id : Uuid)
  | providerReference (reference : String)
  | providerChargeReference (reference : String)
deriving DecidableEq

def PaymentKey.selects (k : PaymentKey) (p : Payment) : Bool :=
  match k with
  | id i => p.id == i
  | providerReference r => p.providerReference == r
  | providerChargeReference r => p.providerChargeReference == some r

/-- A condition on the customer column. -/
inductive CustomerFilter
  | notNull
  | equals (code : String)
deriving DecidableEq

def CustomerFilter.selects : CustomerFilter → Option String → Bool
  | notNull, c => c.isSome
  | equals code, c => c == some code

/-- The `where` of `payment.findFirst`; an absent column is not looked at. -/
structure PaymentWhere where
  transactionId : Option Uuid := none
  status : Option PaymentStatus := none
  providerCustomerCode : CustomerFilter
deriving DecidableEq

def PaymentWhere.selects (q : PaymentWhere) (p : Payment) : Bool :=
  (q.transactionId.isNone || q.transactionId == some p.transactionId) &&
    (q.status.isNone || q.status == some p.status) &&
    q.providerCustomerCode.selects p.providerCustomerCode

structure PaymentCreate where
  transactionId : Uuid
  providerReference : String
  providerCustomerCode : Option String := none
  amount : Int
  currency : String
  status : PaymentStatus
  virtualAccountNumber : Option String := none
  virtualAccountBank : Option String := none
  providerDedicatedAccountId : Option String := none
deriving DecidableEq

def PaymentCreate.row (d : PaymentCreate) (id : Uuid) (now : Int) : Payment where
  id := id
  transactionId := d.transactionId
  providerReference := d.providerReference
  providerChargeReference := none
  providerCustomerCode := d.providerCustomerCode
  providerDedicatedAccountId := d.providerDedicatedAccountId
  virtualAccountNumber := d.virtualAccountNumber
  virtualAccountBank := d.virtualAccountBank
  amount := d.amount
  currency := d.currency
  status := d.status
  rawPayload := none
  createdAt := now

/-- The `data` of a payment update; an absent column keeps its value. -/
structure PaymentUpdate where
  status : Option PaymentStatus := none
  rawPayload : Option VerifyTransactionResult := none
  virtualAccountNumber : Option String := none
  virtualAccountBank : Option String := none
  providerDedicatedAccountId : Option String := none
deriving DecidableEq

def PaymentUpdate.apply (d : PaymentUpdate) (p : Payment) : Payment :=
  { p with
    status := d.status.getD p.status
    rawPayload := d.rawPayload.or p.rawPayload
    virtualAccountNumber := d.virtualAccountNumber.or p.virtualAccountNumber
    virtualAccountBank := d.virtualAccountBank.or p.virtualAccountBank
    providerDedicatedAccountId := d.providerDedicatedAccountId.or p.providerDedicatedAccountId }

structure WebhookEventCreate where
  providerEventId : String
  eventType : String
  rawPayload : PaystackWebhookPayload
deriving DecidableEq

def WebhookEventCreate.row (d : WebhookEventCreate) (id : Uuid) : WebhookEvent where
  id := id
  providerEventId := d.providerEventId
  eventType := d.eventType
  rawPayload := d.rawPayload
  processingResult := none

structure DisputeCreate where
  transactionId : Uuid
  openedBy : Uuid
  reason : DisputeReason
  status : DisputeStatus
  description : Option String
  desiredOutcome : Option DisputeOutcome
deriving DecidableEq

def DisputeCreate.row (d : DisputeCreate) (id : Uuid) : Dispute where
  id := id
  transactionId := d.transactionId
  openedBy := d.openedBy
  reason := d.reason
  description := d.description
  desiredOutcome := d.desiredOutcome
  status := d.status
  resolution := none
  resolvedBy := none

/-- The `data` of a resolution. -/
structure DisputeUpdate where
  status : DisputeStatus
  resolvedBy : Uuid
  resolution : Option String
deriving DecidableEq

def DisputeUpdate.apply (d : DisputeUpdate) (row : Dispute) : Dispute :=
  { row with status := d.status, resolvedBy := some d.resolvedBy, resolution := d.resolution }

structure InvoiceCreate where
  sellerId : Uuid
  number : String
  status : InvoiceStatus
  publicViewId : String
  subtotal : Int
  taxAmount : Int
  total : Int
  taxRatePctBp : Option Int
  buyerName : Option String
  buyerEmail : Option String
  buyerPhone : Option String
  dueDate : Option Int
  notes : Option String
  terms : Option String
  lineItems : List InvoiceLineItem
deriving DecidableEq

def InvoiceCreate.row (d : InvoiceCreate) (id : Uuid) : Invoice where
  id := id
  sellerId := d.sellerId
  number := d.number
  buyerName := d.buyerName
  buyerEmail := d.buyerEmail
  buyerPhone := d.buyerPhone
  dueDate := d.dueDate
  currency := "NGN"
  subtotal := d.subtotal
  taxRatePctBp := d.taxRatePctBp
  taxAmount := d.taxAmount
  total := d.total
  notes := d.notes
  terms := d.terms
  transactionId := none
  publicViewId := d.publicViewId
  status := d.status
  lineItems := d.lineItems

/-- The `data` of an invoice update; an absent column keeps its value. -/
structure InvoiceUpdate where
  status : Option InvoiceStatus := none
  buyerName : Option (Option String) := none
  buyerEmail : Option (Option String) := none
  buyerPhone : Option (Option String) := none
  dueDate : Option (Option Int) := none
  taxRatePctBp : Option (Option Int) := none
  notes : Option (Option String) := none
  terms : Option (Option String) := none
  subtotal : Option Int := none
  taxAmount : Option Int := none
  total : Option Int := none
  lineItems : Option (List InvoiceLineItem) := none
deriving DecidableEq

def InvoiceUpdate.apply (d : InvoiceUpdate) (i : Invoice) : Invoice :=
  { i with
    status := d.status.getD i.status
    buyerName := d.buyerName.getD i.buyerName
    buyerEmail := d.buyerEmail.getD i.buyerEmail
    buyerPhone := d.buyerPhone.getD i.buyerPhone
    dueDate := d.dueDate.getD i.dueDate
    taxRatePctBp := d.taxRatePctBp.getD i.taxRatePctBp
    notes := d.notes.getD i.notes
    terms := d.terms.getD i.terms
    subtotal := d.subtotal.getD i.subtotal
    taxAmount := d.taxAmount.getD i.taxAmount
    total := d.total.getD i.total
    lineItems := d.lineItems.getD i.lineItems }

/-- The amounts of an invoice fit their columns. -/
def Invoice.fits (i : Invoice) : Bool :=
  fitsInt4 i.subtotal && fitsInt4 i.taxAmount && fitsInt4 i.total && i.taxRatePctBp.all fitsInt4 &&
    i.lineItems.all fun l => fitsInt4 l.quantity && fitsInt4 l.unitPrice && fitsInt4 l.lineTotal

inductive InvoiceKey
  | id (id : Uuid)
  | publicViewId (publicViewId : String)
deriving DecidableEq

def InvoiceKey.selects (k : InvoiceKey) (i : Invoice) : Bool :=
  match k with
  | id x => i.id == x
  | publicViewId v => i.publicViewId == v

structure InitiateTransferInput where
  amount : Int
  recipient : String
  reference : String
  reason : String
deriving DecidableEq

structure InitiateTransferResult where
  transferCode : String
  status : String
  reference : String
deriving DecidableEq

structure VerifyTransferResult where
  transferCode : String
  status : String
deriving DecidableEq

structure InitializeTransactionInput where
  email : String
  amount : Int
  reference : String
  callbackUrl : String
  transactionId : Uuid
  paymentId : Uuid
deriving DecidableEq

structure CreateDedicatedAccountResult where
  accountNumber : Option String
  bankName : Option String
  dedicatedAccountId : Option String
deriving DecidableEq

/-- The operations a service awaits: database calls, job producers, requests to Paystack, the clock
and the generator of identifiers. -/
inductive Op
  | userFindUnique (id : Uuid)
  | userUpdateRoleFlags (id : Uuid) (roleFlags : List UserRole)
  | sellerProfileFindUnique (userId : Uuid)
  | transactionFindUnique (key : TransactionKey)
  | transactionFindWithDisputes (id : Uuid) (statuses : List DisputeStatus)
  | transactionCreate (data : TransactionCreate)
  | transactionUpdateBuyer (id buyerId : Uuid)
  | commitTransition (write : TransitionWrite)
  | transactionFindAutoReleasable
  | disputeCount (transactionId : Uuid) (status : DisputeStatus)
  | disputeCountOthers (transactionId : Uuid) (statuses : List DisputeStatus) (except : Uuid)
  | disputeCreate (data : DisputeCreate)
  | disputeFindUnique (id : Uuid)
  | disputeUpdate (id : Uuid) (data : DisputeUpdate)
  | invoiceCreate (data : InvoiceCreate)
  | invoiceFindUnique (key : InvoiceKey)
  | invoiceLineItemFindMany (invoiceId : Uuid)
  | invoiceUpdate (id : Uuid) (data : InvoiceUpdate)
  | invoiceUpdateManySent (id : Uuid) (number : String) (transactionId : Uuid)
  | invoiceUpdateManyViewed (id : Uuid)
  | invoiceUpdateManyOverdue (now : Int)
  | invoiceCounterUpsert (sellerId : Uuid)
  | invoiceUpdateManyPaid (transactionId : Uuid) (statuses : List InvoiceStatus)
  | invoiceFindFirst (transactionId : Uuid)
  | paymentCreate (data : PaymentCreate)
  | paymentFindUnique (key : PaymentKey)
  | paymentFindFirst (query : PaymentWhere)
  | paymentFindMany (status : PaymentStatus) (createdBefore : Int) (take : Nat)
  | paymentUpdate (id : Uuid) (data : PaymentUpdate)
  | paymentBindCharge (id : Uuid) (providerChargeReference : String)
  | payoutCreate (data : PayoutCreate)
  | payoutFindUnique (idempotencyKey : String)
  | payoutUpdate (idempotencyKey : String) (data : PayoutUpdate)
  | webhookEventCreate (data : WebhookEventCreate)
  | webhookEventUpdate (id : Uuid) (processingResult : String)
  | auditLogCreate (data : AuditLog)
  | enqueueChatOutbound (data : ChatOutboundJobData)
  | enqueueWebhookDelivery (eventId : Uuid)
  | enqueueInvoice (invoiceId : Uuid)
  | enqueueRelease (transactionId : Uuid)
  | startReleaseJob (transactionId : Uuid)
  | completeReleaseJob (transactionId : Uuid) (start : Nat)
  | failReleaseJob (transactionId : Uuid) (start : Nat)
  | stallReleaseJob (transactionId : Uuid)
  | initializeTransaction (input : InitializeTransactionInput)
  | verifyTransaction (reference : String)
  | initiateTransfer (input : InitiateTransferInput)
  | fetchTransfer (reference : String)
  | createCustomer (email : String)
  | createDedicatedAccount (customerCode : String)
  | now
  | randomUUID
deriving DecidableEq

@[reducible] def Op.Ans : Op → Type
  | userFindUnique _ => Option User
  | userUpdateRoleFlags .. => Unit
  | sellerProfileFindUnique _ => Option SellerProfile
  | transactionFindUnique _ => Option Transaction
  | transactionFindWithDisputes .. => Option (Transaction × List Dispute)
  | transactionCreate _ => Transaction
  | transactionUpdateBuyer .. => Unit
  | commitTransition _ => Transaction × Option Uuid
  | transactionFindAutoReleasable => List (Transaction × Option Int)
  | disputeCount .. => Nat
  | disputeCountOthers .. => Nat
  | disputeCreate _ => Dispute
  | disputeFindUnique _ => Option Dispute
  | disputeUpdate .. => Dispute
  | invoiceCreate _ => Invoice
  | invoiceFindUnique _ => Option Invoice
  | invoiceLineItemFindMany _ => List InvoiceLineItem
  | invoiceUpdate .. => Invoice
  | invoiceUpdateManySent .. => Nat
  | invoiceUpdateManyViewed _ => Nat
  | invoiceUpdateManyOverdue _ => Nat
  | invoiceCounterUpsert _ => InvoiceCounter
  | invoiceUpdateManyPaid .. => Nat
  | invoiceFindFirst _ => Option Invoice
  | paymentCreate _ => Payment
  | paymentFindUnique _ => Option Payment
  | paymentFindFirst _ => Option Payment
  | paymentFindMany .. => List Payment
  | paymentUpdate .. => Payment
  | paymentBindCharge .. => Nat
  | payoutCreate _ => Payout
  | payoutFindUnique _ => Option Payout
  | payoutUpdate .. => Payout
  | webhookEventCreate _ => WebhookEvent
  | webhookEventUpdate .. => Unit
  | auditLogCreate _ => Unit
  | enqueueChatOutbound _ => Unit
  | enqueueWebhookDelivery _ => Unit
  | enqueueInvoice _ => Unit
  | enqueueRelease _ => Unit
  | startReleaseJob _ => Nat
  | completeReleaseJob .. => Unit
  | failReleaseJob .. => Unit
  | stallReleaseJob _ => Unit
  | initializeTransaction _ => String
  | verifyTransaction _ => VerifyTransactionResult
  | initiateTransfer _ => InitiateTransferResult
  | fetchTransfer _ => VerifyTransferResult
  | createCustomer _ => String
  | createDedicatedAccount _ => CreateDedicatedAccountResult
  | now => Int
  | randomUUID => Uuid

/-- Service code. -/
abbrev Program := Prog Op.Ans Err

abbrev await (op : Op) : Program op.Ans := Prog.perform op

/-! ## Outcomes -/

/-- What the environment supplies to a served operation: a generated identifier, and what Paystack
makes up. -/
structure Supply where
  id : Uuid
  code : String := ""
  status : String := ""
  amount : Int := 0
  account : CreateDedicatedAccountResult := ⟨none, none, none⟩
deriving DecidableEq

/-- The outcome of an operation. -/
inductive Outcome
  | served (supply : Supply)
  | lost (supply : Supply) (message : String)
  | failed (message : String)
deriving DecidableEq

/-- The supplies an operation can meet: generated row identifiers are fresh, transfer codes are
Paystack's own, and a charge once reported successful is always reported so. -/
def Op.fits (s : Supply) (w : World) : Op → Bool
  | transactionCreate _ => w.transactions.rows.all fun t => t.id != s.id
  | paymentCreate _ => w.payments.rows.all fun p => p.id != s.id
  | payoutCreate _ => w.payouts.rows.all fun p => p.id != s.id
  | webhookEventCreate _ => w.webhookEvents.rows.all fun e => e.id != s.id
  | disputeCreate _ => w.disputes.rows.all fun d => d.id != s.id
  | invoiceCreate _ => w.invoices.rows.all fun i => i.id != s.id
  | initiateTransfer _ => w.paystack.transfers.all fun t => t.transferCode != s.code
  | verifyTransaction reference =>
      (w.paystack.verified.all fun v => v.reference != reference || v.status != "success") ||
        s.status == "success"
  | _ => true

/-- Operations that change something; the answer of one of these can be lost. -/
def Op.writes : Op → Bool
  | userUpdateRoleFlags .. | transactionCreate _ | transactionUpdateBuyer .. | commitTransition _
  | invoiceUpdateManyPaid .. | paymentCreate _ | paymentUpdate .. | paymentBindCharge ..
  | payoutCreate _ | payoutUpdate .. | webhookEventCreate _ | webhookEventUpdate ..
  | auditLogCreate _ | enqueueChatOutbound _ | enqueueWebhookDelivery _
  | disputeCreate _ | disputeUpdate .. | invoiceCreate _ | invoiceUpdate ..
  | invoiceUpdateManySent .. | invoiceUpdateManyViewed _ | invoiceUpdateManyOverdue _
  | invoiceCounterUpsert _ | enqueueInvoice _ | enqueueRelease _ | startReleaseJob _
  | completeReleaseJob .. | failReleaseJob .. | stallReleaseJob _
  | initializeTransaction _ | initiateTransfer _ | createCustomer _
  | createDedicatedAccount _ => true
  | _ => false

/-- The error of an operation that met a database, queue or network failure. -/
def Op.fault (message : String) : Op → Err
  | initializeTransaction _ | verifyTransaction _ | initiateTransfer _ | fetchTransfer _
  | createCustomer _ | createDedicatedAccount _ => .badGateway message
  | enqueueChatOutbound _ | enqueueWebhookDelivery _ | enqueueInvoice _ | enqueueRelease _
  | startReleaseJob _ | completeReleaseJob .. | failReleaseJob .. | stallReleaseJob _ =>
      .plain message
  | _ => .prisma "P1001" message

/-- The clock and the generator of identifiers do not fail. -/
def Op.fallible : Op → Bool
  | now | randomUUID => false
  | _ => true

/-! ## Effects -/

/-- The flip `apply` commits: the optimistic guard on the status, then the timeline row, the audit
row and the outbound row, all or nothing. -/
def commitTransition (d : TransitionWrite) (s : Supply) (w : World) :
    Except Err (Transaction × Option Uuid) × World :=
  match w.transactions.find fun t => t.id == d.transactionId && t.status == d.oldState with
  | none =>
      (.error (.transitionRejected .illegalTransition
        ("Transaction " ++ d.transactionId.text ++ " changed state concurrently")), w)
  | some t =>
      match w.transactions.update (fun t => t.id == d.transactionId && t.status == d.oldState)
          fun t => { t with status := d.newState } with
      | none => (.error uniqueViolation, w)
      | some transactions =>
          let w' := { w with
            transactions := transactions
            timeline := w.timeline ++ [d.timeline]
            timelineCreatedAt := w.timelineCreatedAt ++ [w.clock]
            auditLogs := w.auditLogs ++ [d.audit] }
          match d.outbound with
          | none => (.ok ({ t with status := d.newState }, none), w')
          | some (merchantId, type, payload) =>
              (.ok ({ t with status := d.newState }, some s.id),
                { w' with outboundEvents := w.outboundEvents ++ [⟨s.id, merchantId, type, payload⟩] })

/-- The invoice flip of `markPaidByTransaction`, with the number of rows it changed. -/
def invoiceUpdateManyPaid (transactionId : Uuid) (statuses : List InvoiceStatus) (w : World) :
    Except Err Nat × World :=
  let selects := fun i : Invoice => i.transactionId == some transactionId && statuses.contains i.status
  match w.invoices.update selects fun i => { i with status := .paid } with
  | none => (.error uniqueViolation, w)
  | some invoices => (.ok (w.invoices.count selects), { w with invoices := invoices })

/-- The confirmed-delivery transactions whose release rule is the window, each with the time it last
went to `CONFIRMATION_PENDING`. -/
def transactionFindAutoReleasable (w : World) : List (Transaction × Option Int) :=
  (w.transactions.filter fun t =>
    t.status == .confirmationPending && t.releaseRule == .autoAfterWindow).map fun t =>
      (t, ((w.timeline.zip w.timelineCreatedAt).reverse.find? fun e =>
        e.1.transactionId == t.id &&
          e.1.newState == TransactionStatus.confirmationPending.text).map Prod.snd)

def disputeUpdate (id : Uuid) (d : DisputeUpdate) (w : World) : Except Err Dispute × World :=
  match w.disputes.find fun r => r.id == id with
  | none => (.error recordNotFound, w)
  | some r =>
      match w.disputes.update (fun r => r.id == id) d.apply with
      | none => (.error uniqueViolation, w)
      | some disputes => (.ok (d.apply r), { w with disputes := disputes })

def invoiceUpdate (id : Uuid) (d : InvoiceUpdate) (w : World) : Except Err Invoice × World :=
  match w.invoices.find fun i => i.id == id with
  | none => (.error recordNotFound, w)
  | some i =>
      if (d.apply i).fits then
        match w.invoices.update (fun i => i.id == id) d.apply with
        | none => (.error uniqueViolation, w)
        | some invoices => (.ok (d.apply i), { w with invoices := invoices })
      else (.error valueOutOfRange, w)

/-- `invoice.updateMany`, with the number of rows it changed. -/
def invoiceUpdateMany (selects : Invoice → Bool) (f : Invoice → Invoice) (w : World) :
    Except Err Nat × World :=
  match w.invoices.update selects f with
  | none => (.error uniqueViolation, w)
  | some invoices => (.ok (w.invoices.count selects), { w with invoices := invoices })

/-- The upsert of a seller's counter, with the row it leaves. -/
def invoiceCounterUpsert (sellerId : Uuid) (w : World) : Except Err InvoiceCounter × World :=
  match w.invoiceCounters.find fun c => c.sellerId == sellerId with
  | none =>
      match w.invoiceCounters.create ⟨sellerId, 2⟩ with
      | none => (.error uniqueViolation, w)
      | some counters => (.ok ⟨sellerId, 2⟩, { w with invoiceCounters := counters })
  | some c =>
      match w.invoiceCounters.update (fun c => c.sellerId == sellerId)
          fun c => { c with nextSeq := c.nextSeq + 1 } with
      | none => (.error uniqueViolation, w)
      | some counters =>
          (.ok { c with nextSeq := c.nextSeq + 1 }, { w with invoiceCounters := counters })

/-! ### The release queue -/

/-- `attempts` of a release job. -/
def releaseAttempts : Nat := 5

/-- How often a job may stall before it fails. -/
def maxStalledCount : Nat := 1

/-- The queue's `add`: ignored while a job with the id exists, a failed one included. -/
def enqueueRelease (transactionId : Uuid) (w : World) : World :=
  if w.releaseJobs.any fun j => j.transactionId == transactionId then w
  else { w with releaseJobs := w.releaseJobs ++ [⟨transactionId, .waiting, 0, 0, 0⟩] }

/-- Change the job of a transaction. -/
def World.moveJob (w : World) (transactionId : Uuid) (f : ReleaseJob → ReleaseJob) : World :=
  { w with releaseJobs := w.releaseJobs.map fun j =>
      if j.transactionId == transactionId then f j else j }

/-- A worker takes a waiting job. -/
def startReleaseJob (transactionId : Uuid) (w : World) : Except Err Nat × World :=
  match w.releaseJobs.find? fun j => j.transactionId == transactionId && j.state == .waiting with
  | none => (.error (.plain "No job"), w)
  | some j =>
      (.ok (j.starts + 1),
        w.moveJob transactionId fun j => { j with state := .active, starts := j.starts + 1 })

/-- The worker that started it last still holds the job. -/
def ReleaseJob.heldBy (j : ReleaseJob) (transactionId : Uuid) (start : Nat) : Bool :=
  j.transactionId == transactionId && j.state == .active && j.starts == start

def completeReleaseJob (transactionId : Uuid) (start : Nat) (w : World) : Except Err Unit × World :=
  if w.releaseJobs.any fun j => j.heldBy transactionId start then
    (.ok (), { w with releaseJobs :=
      w.releaseJobs.filter fun j => j.transactionId != transactionId })
  else (.error (.plain "Missing lock for job"), w)

/-- A failed attempt is repeated until the attempts are used up. -/
def failReleaseJob (transactionId : Uuid) (start : Nat) (w : World) : Except Err Unit × World :=
  if w.releaseJobs.any fun j => j.heldBy transactionId start then
    (.ok (), w.moveJob transactionId fun j =>
      { j with
        state := if j.attemptsMade + 1 < releaseAttempts then .waiting else .failed
        attemptsMade := j.attemptsMade + 1 })
  else (.error (.plain "Missing lock for job"), w)

/-- The queue finds that the worker of an active job is gone. -/
def stallReleaseJob (transactionId : Uuid) (w : World) : World :=
  w.moveJob transactionId fun j =>
    if j.state = .active then
      { j with
        state := if j.stalls < maxStalledCount then .waiting else .failed
        stalls := j.stalls + 1 }
    else j

/-- `payment.updateMany({ where: { id, providerChargeReference: null }, … })`. -/
def paymentBindCharge (id : Uuid) (reference : String) (w : World) : Except Err Nat × World :=
  let selects := fun p : Payment => p.id == id && p.providerChargeReference.isNone
  match w.payments.update selects fun p => { p with providerChargeReference := some reference } with
  | none => (.error uniqueViolation, w)
  | some payments => (.ok (w.payments.count selects), { w with payments := payments })

def paymentUpdate (id : Uuid) (d : PaymentUpdate) (w : World) : Except Err Payment × World :=
  match w.payments.find fun p => p.id == id with
  | none => (.error recordNotFound, w)
  | some p =>
      match w.payments.update (fun p => p.id == id) d.apply with
      | none => (.error uniqueViolation, w)
      | some payments => (.ok (d.apply p), { w with payments := payments })

def payoutUpdate (key : String) (d : PayoutUpdate) (w : World) : Except Err Payout × World :=
  match w.payouts.find fun p => p.idempotencyKey == key with
  | none => (.error recordNotFound, w)
  | some p =>
      match w.payouts.update (fun p => p.idempotencyKey == key) d.apply with
      | none => (.error uniqueViolation, w)
      | some payouts => (.ok (d.apply p), { w with payouts := payouts })

/-- Paystack refuses a reference that already has a transfer. -/
def initiateTransfer (i : InitiateTransferInput) (s : Supply) (w : World) :
    Except Err InitiateTransferResult × World :=
  if w.paystack.transfers.any fun t => t.reference == i.reference then
    (.error (.badGateway "Duplicate reference"), w)
  else
    (.ok ⟨s.code, TransferStatus.pending.text, i.reference⟩,
      { w with paystack := { w.paystack with
          transfers := w.paystack.transfers ++
            [⟨i.reference, s.code, i.amount, i.recipient, i.reason, .pending, false⟩] } })

def fetchTransfer (reference : String) (w : World) : Except Err VerifyTransferResult :=
  match w.paystack.transfers.find? fun t => t.reference == reference with
  | none => .error (.badGateway "Transfer not found")
  | some t => .ok ⟨t.transferCode, t.status.text⟩

/-- What a served operation answers, and the world it leaves. -/
def effect (s : Supply) (w : World) : (op : Op) → Except Err op.Ans × World
  | .userFindUnique id => (.ok (w.users.find fun u => u.id == id), w)
  | .userUpdateRoleFlags id roleFlags =>
      match w.users.update (fun u => u.id == id) fun u => { u with roleFlags := roleFlags } with
      | none => (.error uniqueViolation, w)
      | some users => (.ok (), { w with users := users })
  | .sellerProfileFindUnique userId => (.ok (w.sellerProfiles.find fun p => p.userId == userId), w)
  | .transactionFindUnique key => (.ok (w.transactions.find key.selects), w)
  | .transactionFindWithDisputes id statuses =>
      (.ok ((w.transactions.find fun t => t.id == id).map fun t =>
        (t, w.disputes.filter fun d => d.transactionId == id && statuses.contains d.status)), w)
  | .transactionCreate d =>
      if fitsInt4 d.amount && fitsInt4 d.feeAmount then
        match w.transactions.create (d.row s.id) with
        | none => (.error uniqueViolation, w)
        | some transactions => (.ok (d.row s.id), { w with transactions := transactions })
      else (.error valueOutOfRange, w)
  | .transactionUpdateBuyer id buyerId =>
      match w.transactions.update (fun t => t.id == id)
          fun t => { t with buyerId := some buyerId } with
      | none => (.error uniqueViolation, w)
      | some transactions => (.ok (), { w with transactions := transactions })
  | .commitTransition d => commitTransition d s w
  | .disputeCount transactionId status =>
      (.ok (w.disputes.count fun d => d.transactionId == transactionId && d.status == status), w)
  | .transactionFindAutoReleasable => (.ok (transactionFindAutoReleasable w), w)
  | .disputeCountOthers transactionId statuses except =>
      (.ok (w.disputes.count fun d =>
        d.transactionId == transactionId && statuses.contains d.status && d.id != except), w)
  | .disputeCreate d =>
      match w.disputes.create (d.row s.id) with
      | none => (.error uniqueViolation, w)
      | some disputes => (.ok (d.row s.id), { w with disputes := disputes })
  | .disputeFindUnique id => (.ok (w.disputes.find fun d => d.id == id), w)
  | .disputeUpdate id d => disputeUpdate id d w
  | .invoiceCreate d =>
      if (d.row s.id).fits then
        match w.invoices.create (d.row s.id) with
        | none => (.error uniqueViolation, w)
        | some invoices => (.ok (d.row s.id), { w with invoices := invoices })
      else (.error valueOutOfRange, w)
  | .invoiceFindUnique key => (.ok (w.invoices.find key.selects), w)
  | .invoiceLineItemFindMany invoiceId =>
      (.ok ((w.invoices.find fun i => i.id == invoiceId).elim [] Invoice.lineItems), w)
  | .invoiceUpdate id d => invoiceUpdate id d w
  | .invoiceUpdateManySent id number transactionId =>
      invoiceUpdateMany (fun i => i.id == id && i.status == .draft)
        (fun i => { i with status := .sent, number := number, transactionId := some transactionId }) w
  | .invoiceUpdateManyViewed id =>
      invoiceUpdateMany (fun i => i.id == id && i.status == .sent)
        (fun i => { i with status := .viewed }) w
  | .invoiceUpdateManyOverdue now =>
      invoiceUpdateMany
        (fun i => (i.status == .sent || i.status == .viewed) && i.dueDate.any (· < now))
        (fun i => { i with status := .overdue }) w
  | .invoiceCounterUpsert sellerId => invoiceCounterUpsert sellerId w
  | .invoiceUpdateManyPaid transactionId statuses => invoiceUpdateManyPaid transactionId statuses w
  | .invoiceFindFirst transactionId =>
      (.ok (w.invoices.find fun i => i.transactionId == some transactionId), w)
  | .paymentCreate d =>
      if fitsInt4 d.amount then
        match w.payments.create (d.row s.id w.clock) with
        | none => (.error uniqueViolation, w)
        | some payments => (.ok (d.row s.id w.clock), { w with payments := payments })
      else (.error valueOutOfRange, w)
  | .paymentFindUnique key => (.ok (w.payments.find key.selects), w)
  | .paymentFindFirst query => (.ok (w.payments.findNewest query.selects), w)
  | .paymentFindMany status createdBefore take =>
      (.ok ((w.payments.filter fun p =>
        p.status == status && p.createdAt < createdBefore).take take), w)
  | .paymentUpdate id d => paymentUpdate id d w
  | .paymentBindCharge id reference => paymentBindCharge id reference w
  | .payoutCreate d =>
      if fitsInt4 d.amount then
        match w.payouts.create (d.row s.id) with
        | none => (.error uniqueViolation, w)
        | some payouts => (.ok (d.row s.id), { w with payouts := payouts })
      else (.error valueOutOfRange, w)
  | .payoutFindUnique key => (.ok (w.payouts.find fun p => p.idempotencyKey == key), w)
  | .payoutUpdate key d => payoutUpdate key d w
  | .webhookEventCreate d =>
      match w.webhookEvents.create (d.row s.id) with
      | none => (.error uniqueViolation, w)
      | some webhookEvents => (.ok (d.row s.id), { w with webhookEvents := webhookEvents })
  | .webhookEventUpdate id result =>
      match w.webhookEvents.update (fun e => e.id == id)
          fun e => { e with processingResult := some result } with
      | none => (.error uniqueViolation, w)
      | some webhookEvents => (.ok (), { w with webhookEvents := webhookEvents })
  | .auditLogCreate d => (.ok (), { w with auditLogs := w.auditLogs ++ [d] })
  | .enqueueChatOutbound d => (.ok (), { w with chatOutbound := w.chatOutbound ++ [d] })
  | .enqueueWebhookDelivery eventId =>
      (.ok (), { w with webhookDeliveries := w.webhookDeliveries ++ [eventId] })
  | .enqueueInvoice invoiceId =>
      (.ok (), { w with invoiceDeliveries := w.invoiceDeliveries ++ [invoiceId] })
  | .enqueueRelease transactionId => (.ok (), enqueueRelease transactionId w)
  | .startReleaseJob transactionId => startReleaseJob transactionId w
  | .completeReleaseJob transactionId start => completeReleaseJob transactionId start w
  | .failReleaseJob transactionId start => failReleaseJob transactionId start w
  | .stallReleaseJob transactionId => (.ok (), stallReleaseJob transactionId w)
  | .initializeTransaction i =>
      if w.paystack.charges.contains i.reference then
        (.error (.badGateway "Duplicate Transaction Reference"), w)
      else
        (.ok s.code,
          { w with paystack := { w.paystack with charges := w.paystack.charges ++ [i.reference] } })
  | .verifyTransaction reference =>
      (.ok ⟨s.status, s.amount, reference⟩,
        { w with paystack := { w.paystack with
            verified := w.paystack.verified ++ [⟨s.status, s.amount, reference⟩] } })
  | .initiateTransfer i => initiateTransfer i s w
  | .fetchTransfer reference => (fetchTransfer reference w, w)
  | .createCustomer _ => (.ok s.code, w)
  | .createDedicatedAccount _ => (.ok s.account, w)
  | .now => (.ok w.clock, w)
  | .randomUUID => (.ok s.id, w)

/-- The outcome of an operation; none when it cannot happen. -/
def exec (op : Op) (outcome : Outcome) (w : World) : Option (Except Err op.Ans × World) :=
  match outcome with
  | .served s => if op.fits s w then some (effect s w op) else none
  | .lost s message =>
      if op.writes && op.fits s w then some (.error (op.fault message), (effect s w op).2) else none
  | .failed message => if op.fallible then some (.error (op.fault message), w) else none

/-! ## The environment -/

/-- What happens between the operations of the modelled calls. A charge Paystack opens itself
carries a reference of its own, which never begins like ours. -/
inductive Move
  | tick (elapsed : Nat)
  | settle (reference : String)
  | fail (reference : String)
  | reverse (reference : String)
  | charge (reference : String)
  | others (users : Table User) (sellerProfiles : Table SellerProfile) (disputes : Table Dispute)
      (invoices : Table Invoice)
  | merge (source target : Uuid)

/-- Our references begin with `mdn_`. -/
def isOurReference (reference : String) : Bool :=
  ['m', 'd', 'n', '_'].isPrefixOf reference.toList

/-- A transfer that leaves `pending`, or is returned after it succeeded. -/
def Transfer.settle (t : Transfer) : Transfer :=
  if t.status = .pending then { t with status := .success, settled := true } else t

def Transfer.fail (t : Transfer) : Transfer :=
  if t.status = .pending then { t with status := .failed } else t

def Transfer.reverse (t : Transfer) : Transfer :=
  if t.status = .pending ∨ t.status = .success then { t with status := .reversed } else t

/-- Move the transfer with this reference on. -/
def World.moveTransfer (w : World) (reference : String) (f : Transfer → Transfer) : World :=
  { w with paystack := { w.paystack with
      transfers := w.paystack.transfers.map fun t => if t.reference = reference then f t else t } }

/-- An account merge moves what one user sold and bought to another. -/
def Uuid.merged (u source target : Uuid) : Uuid := if u = source then target else u

def drift (m : Move) (w : World) : Option World :=
  match m with
  | .tick elapsed => some { w with clock := w.clock + elapsed }
  | .settle reference => some (w.moveTransfer reference Transfer.settle)
  | .fail reference => some (w.moveTransfer reference Transfer.fail)
  | .reverse reference => some (w.moveTransfer reference Transfer.reverse)
  | .charge reference =>
      if isOurReference reference then none
      else some { w with paystack := { w.paystack with
        charges := w.paystack.charges ++ [reference] } }
  | .others users sellerProfiles disputes invoices =>
      some { w with users, sellerProfiles, disputes, invoices }
  | .merge source target => do
      let transactions ← w.transactions.update (fun _ => true) fun t =>
        { t with
          sellerId := t.sellerId.merged source target
          buyerId := t.buyerId.map fun u => u.merged source target }
      let payouts ← w.payouts.update (fun _ => true) fun p =>
        { p with sellerId := p.sellerId.merged source target }
      let invoices ← w.invoices.update (fun _ => true) fun i =>
        { i with sellerId := i.sellerId.merged source target }
      let disputes ← w.disputes.update (fun _ => true) fun d =>
        { d with openedBy := d.openedBy.merged source target }
      pure { w with transactions, payouts, invoices, disputes }

end Meduman
