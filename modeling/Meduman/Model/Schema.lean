import Meduman.Effect.Table

/-!
# The data model

The rows of the database the collection and disbursement services read and write, with the unique
columns of `schema.prisma`. Amounts are integer kobo. Columns no modelled function reads or
returns are left out.

* `Uuid` : canonical identifiers; they contain no colon, so composed keys can be taken apart
* `TransactionStatus`, …, `ActorType` : the enumerations, with the text the database stores
* `Transaction`, `Payment`, `Payout`, `WebhookEvent`, … : the rows
-/

set_option autoImplicit false

namespace Meduman

open Effect

/-! ## Identifiers -/

/-- The canonical form of a uuid: hexadecimal digits, dashes at four places. -/
def isUuid (s : String) : Bool :=
  s.toList.length == 36 && s.toList.zipIdx.all fun (c, i) =>
    if i == 8 || i == 13 || i == 18 || i == 23 then c == '-'
    else c.isDigit || ('a'.val ≤ c.val && c.val ≤ 'f'.val)

/-- A generated identifier (`@db.Uuid`, `randomUUID()`). -/
structure Uuid where
  text : String
  canonical : isUuid text = true
deriving DecidableEq

theorem Uuid.ext {a b : Uuid} (h : a.text = b.text) : a = b := by
  cases a; cases b; cases h; rfl

theorem Uuid.colon_notMem (u : Uuid) : ':' ∉ u.text.toList := by
  intro hmem
  obtain ⟨i, hi, hget⟩ := List.getElem_of_mem hmem
  have hall := u.canonical
  rw [isUuid, Bool.and_eq_true] at hall
  have hc := List.all_eq_true.mp hall.2 (':', i)
    (by rw [List.mem_zipIdx_iff_getElem?]; exact List.getElem?_eq_some_iff.mpr ⟨hi, hget⟩)
  simp only at hc
  split at hc <;> revert hc <;> decide

/-- The identifier without its dashes. -/
def Uuid.hex (u : Uuid) : String := String.ofList (u.text.toList.filter (· ≠ '-'))

/-! ## Enumerations -/

inductive TransactionStatus
  | draft | linkActive | paymentPending | paymentProtected | deliveryInProgress
  | confirmationPending | disputed | releaseProcessing | completed | refunded | cancelled | expired
deriving DecidableEq, Repr

/-- The stored text. -/
def TransactionStatus.text : TransactionStatus → String
  | draft => "DRAFT"
  | linkActive => "LINK_ACTIVE"
  | paymentPending => "PAYMENT_PENDING"
  | paymentProtected => "PAYMENT_PROTECTED"
  | deliveryInProgress => "DELIVERY_IN_PROGRESS"
  | confirmationPending => "CONFIRMATION_PENDING"
  | disputed => "DISPUTED"
  | releaseProcessing => "RELEASE_PROCESSING"
  | completed => "COMPLETED"
  | refunded => "REFUNDED"
  | cancelled => "CANCELLED"
  | expired => "EXPIRED"

theorem TransactionStatus.text_injective {a b : TransactionStatus} (h : a.text = b.text) :
    a = b := by
  cases a <;> cases b <;> first | rfl | (revert h; decide)

inductive TransactionOrigin
  | web | telegram | whatsapp | instagram | messenger | x | eaas
deriving DecidableEq, Repr

inductive ReleaseRule
  | buyerConfirmation | autoAfterWindow | adminOnly
deriving DecidableEq, Repr

def ReleaseRule.text : ReleaseRule → String
  | buyerConfirmation => "BUYER_CONFIRMATION"
  | autoAfterWindow => "AUTO_AFTER_WINDOW"
  | adminOnly => "ADMIN_ONLY"

/-- Who bears the platform fee. -/
inductive FeeModel
  | buyerPays | sellerPays
deriving DecidableEq, Repr

inductive PaymentStatus
  | pending | success | failed | abandoned
deriving DecidableEq, Repr

inductive PayoutStatus
  | pending | processing | success | failed | reversed
deriving DecidableEq, Repr

def PayoutStatus.text : PayoutStatus → String
  | pending => "PENDING"
  | processing => "PROCESSING"
  | success => "SUCCESS"
  | failed => "FAILED"
  | reversed => "REVERSED"

inductive DisputeStatus
  | open | underReview | resolvedRelease | resolvedRefund | resolvedPartial | cancelled
deriving DecidableEq, Repr

inductive DisputeReason
  | itemNotReceived | notAsDescribed | damaged | sellerUnresponsive | wrongItem | fraud | other
deriving DecidableEq, Repr

/-- What the complainant asked for. -/
inductive DisputeOutcome
  | refund | release | replacement | partialRefund
deriving DecidableEq, Repr

def DisputeStatus.text : DisputeStatus → String
  | «open» => "OPEN"
  | underReview => "UNDER_REVIEW"
  | resolvedRelease => "RESOLVED_RELEASE"
  | resolvedRefund => "RESOLVED_REFUND"
  | resolvedPartial => "RESOLVED_PARTIAL"
  | cancelled => "CANCELLED"

inductive InvoiceStatus
  | draft | sent | viewed | paid | overdue | void
deriving DecidableEq, Repr

def InvoiceStatus.text : InvoiceStatus → String
  | draft => "DRAFT"
  | sent => "SENT"
  | viewed => "VIEWED"
  | paid => "PAID"
  | overdue => "OVERDUE"
  | void => "VOID"

inductive UserRole
  | buyer | seller | freelancer | business
deriving DecidableEq, Repr

inductive ActorType
  | user | admin | system
deriving DecidableEq, Repr

/-! ## Rows -/

structure User where
  id : Uuid
  roleFlags : List UserRole
deriving DecidableEq

instance : Constrained User where
  clash a b := a.id == b.id
  clash_comm _ _ := Bool.beq_comm

/-- The payout destination and its masked details. -/
structure SellerProfile where
  userId : Uuid
  providerRecipientCode : Option String := none
  settlementBankCode : Option String := none
  settlementAccountLast4 : Option String := none
  settlementAccountName : Option String := none
  settlementBankVerified : Bool := false
deriving DecidableEq

instance : Constrained SellerProfile where
  clash a b := a.userId == b.userId || sameValue a.providerRecipientCode b.providerRecipientCode
  clash_comm a b := by rw [sameValue_comm, Bool.beq_comm]

structure Transaction where
  id : Uuid
  publicLinkId : String
  sellerId : Uuid
  buyerId : Option Uuid
  title : String
  description : Option String
  amount : Int
  currency : String
  status : TransactionStatus
  releaseRule : ReleaseRule
  expectedDeliveryDate : Option Int
  feeModel : FeeModel
  feeAmount : Int
  merchantId : Option Uuid
  origin : TransactionOrigin
deriving DecidableEq

instance : Constrained Transaction where
  clash a b := a.id == b.id || a.publicLinkId == b.publicLinkId
  clash_comm a b := by
    rw [Bool.beq_comm, @Bool.beq_comm _ _ _ a.publicLinkId]

structure Dispute where
  id : Uuid
  transactionId : Uuid
  openedBy : Uuid
  reason : DisputeReason
  description : Option String
  desiredOutcome : Option DisputeOutcome
  status : DisputeStatus
  resolution : Option String
  resolvedBy : Option Uuid
deriving DecidableEq

instance : Constrained Dispute where
  clash a b := a.id == b.id
  clash_comm _ _ := Bool.beq_comm

/-- A line of an invoice; amounts in kobo. -/
structure InvoiceLineItem where
  title : String
  description : Option String
  quantity : Int
  unitPrice : Int
  lineTotal : Int
  position : Nat
deriving DecidableEq

/-- An invoice with its lines. -/
structure Invoice where
  id : Uuid
  sellerId : Uuid
  number : String
  buyerName : Option String
  buyerEmail : Option String
  buyerPhone : Option String
  dueDate : Option Int
  currency : String
  subtotal : Int
  taxRatePctBp : Option Int
  taxAmount : Int
  total : Int
  notes : Option String
  terms : Option String
  transactionId : Option Uuid
  publicViewId : String
  status : InvoiceStatus
  lineItems : List InvoiceLineItem
deriving DecidableEq

instance : Constrained Invoice where
  clash a b := a.id == b.id || sameValue a.transactionId b.transactionId ||
    a.publicViewId == b.publicViewId || (a.sellerId == b.sellerId && a.number == b.number)
  clash_comm a b := by
    rw [sameValue_comm, Bool.beq_comm, @Bool.beq_comm _ _ _ a.publicViewId,
      @Bool.beq_comm _ _ _ a.sellerId, @Bool.beq_comm _ _ _ a.number]

/-- The numbers a seller's invoices were given so far, and the next one. -/
structure InvoiceCounter where
  sellerId : Uuid
  nextSeq : Int
deriving DecidableEq

instance : Constrained InvoiceCounter where
  clash a b := a.sellerId == b.sellerId
  clash_comm _ _ := Bool.beq_comm

/-- What Paystack reports about a charge. -/
structure VerifyTransactionResult where
  status : String
  amount : Int
  reference : String
deriving DecidableEq

structure Payment where
  id : Uuid
  transactionId : Uuid
  providerReference : String
  providerChargeReference : Option String
  providerCustomerCode : Option String
  providerDedicatedAccountId : Option String
  virtualAccountNumber : Option String
  virtualAccountBank : Option String
  amount : Int
  currency : String
  status : PaymentStatus
  rawPayload : Option VerifyTransactionResult
  createdAt : Int
deriving DecidableEq

instance : Constrained Payment where
  clash a b := a.id == b.id || a.providerReference == b.providerReference ||
    sameValue a.providerChargeReference b.providerChargeReference
  clash_comm a b := by
    rw [sameValue_comm, Bool.beq_comm, @Bool.beq_comm _ _ _ a.providerReference]

structure Payout where
  id : Uuid
  transactionId : Uuid
  sellerId : Uuid
  idempotencyKey : String
  providerTransferCode : Option String
  providerTransferReference : Option String
  amount : Int
  currency : String
  status : PayoutStatus
  attemptCount : Nat
  lastError : Option String
  merchantId : Option Uuid
deriving DecidableEq

instance : Constrained Payout where
  clash a b := a.id == b.id || a.idempotencyKey == b.idempotencyKey ||
    sameValue a.providerTransferCode b.providerTransferCode ||
    sameValue a.providerTransferReference b.providerTransferReference
  clash_comm a b := by
    rw [sameValue_comm, sameValue_comm a.providerTransferReference, Bool.beq_comm,
      @Bool.beq_comm _ _ _ a.idempotencyKey]

/-- A JSON identifier: `string | number`. -/
inductive EventId
  | str (s : String)
  | num (n : Int)
deriving DecidableEq, Repr

/-- The identifier in a template string, and `String(id)`. -/
def EventId.text : EventId → String
  | str s => s
  | num n => toString n

/-- `dedicated_account` of an assignment event; `bankName` is `bank?.name`. -/
structure DedicatedAccountPayload where
  id : Option EventId
  accountNumber : Option String
  bankName : Option String
deriving DecidableEq

/-- The `data` object of a webhook; `customerCode` is `customer?.customer_code`. -/
structure PaystackWebhookData where
  id : Option EventId
  reference : Option String
  transferCode : Option String
  status : Option String
  reason : Option String
  customerCode : Option String
  dedicatedAccount : Option DedicatedAccountPayload
  paidAt : Option String
  createdAtSnake : Option String
  createdAt : Option String
deriving DecidableEq

structure PaystackWebhookPayload where
  event : String
  data : Option PaystackWebhookData
deriving DecidableEq

structure WebhookEvent where
  id : Uuid
  providerEventId : String
  eventType : String
  rawPayload : PaystackWebhookPayload
  processingResult : Option String
deriving DecidableEq

instance : Constrained WebhookEvent where
  clash a b := a.id == b.id || a.providerEventId == b.providerEventId
  clash_comm a b := by
    rw [Bool.beq_comm, @Bool.beq_comm _ _ _ a.providerEventId]

structure TimelineEvent where
  transactionId : Uuid
  actorId : Option String
  actorRole : Option String
  type : String
  oldState : String
  newState : String
  /-- `metadata.reason` -/
  reason : Option String
deriving DecidableEq

/-- A value of an audit row's metadata. -/
inductive Scalar
  | str (s : String)
  | int (n : Int)
deriving DecidableEq

structure AuditLog where
  actorId : Option String
  actorType : ActorType
  action : String
  targetType : String
  targetId : Option String
  reason : Option String
  metadata : List (String × Scalar)
deriving DecidableEq

structure OutboundPayload where
  transactionId : Uuid
  status : TransactionStatus
  amount : Int
  currency : String
  title : String
deriving DecidableEq

structure OutboundEvent where
  id : Uuid
  merchantId : Uuid
  type : String
  payload : OutboundPayload
deriving DecidableEq

end Meduman
