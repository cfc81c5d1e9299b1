import Meduman.Core.Steps

/-!
# What every call promises before it acts

A call decides each operation on what earlier operations answered. `Justified` states, operation by
operation, what the history of a call must show before it; `code_justified` proves it of every call,
for all answers it can get.

* `lastPayout`, `lastPayment`, … : what a history shows
* `Delivers`, `ReportsFailed`, `ReportsSettled`, `ReportsCharge` : what a call was told by Paystack
* `Justified` : the promise
* **`code_justified`** : every call keeps it
-/

set_option autoImplicit false

namespace Meduman

open Effect

/-- The history of a call. -/
abbrev Hist := History Op.Ans Err

/-! ## What a history shows -/

def payoutOf : Event Op.Ans Err → Option Payout
  | ⟨.payoutCreate _, .ok p⟩ => some p
  | ⟨.payoutFindUnique _, .ok p⟩ => p
  | ⟨.payoutUpdate _ _, .ok p⟩ => some p
  | _ => none

def paymentOf : Event Op.Ans Err → Option Payment
  | ⟨.paymentCreate _, .ok p⟩ => some p
  | ⟨.paymentFindUnique _, .ok p⟩ => p
  | ⟨.paymentFindFirst _, .ok p⟩ => p
  | ⟨.paymentUpdate _ _, .ok p⟩ => some p
  | _ => none

def transactionOf : Event Op.Ans Err → Option Transaction
  | ⟨.transactionFindUnique _, .ok t⟩ => t
  | ⟨.transactionFindWithDisputes _ _, .ok r⟩ => r.map Prod.fst
  | _ => none

/-- The payout row the call saw last. -/
def lastPayout : Hist → Option Payout
  | [] => none
  | e :: h => (payoutOf e).or (lastPayout h)

/-- The operation asks Paystack for a transfer. -/
def Op.isTransfer : Op → Bool
  | .initiateTransfer _ => true
  | _ => false

/-- The payout row the call saw last before it first asked for a transfer. -/
def sentPayout : Hist → Option Payout
  | [] => none
  | e :: h => (sentPayout h).or (if e.op.isTransfer then lastPayout h else none)

/-- The payment row the call saw last. -/
def lastPayment : Hist → Option Payment
  | [] => none
  | e :: h => (paymentOf e).or (lastPayment h)

def PayoutShown (h : Hist) (p : Payout) : Prop := ∃ e ∈ h, payoutOf e = some p

def PaymentShown (h : Hist) (p : Payment) : Prop := ∃ e ∈ h, paymentOf e = some p

def TransactionShown (h : Hist) (t : Transaction) : Prop := ∃ e ∈ h, transactionOf e = some t

/-- The call saw this operation answered so. -/
def Saw (h : Hist) (op : Op) (a : op.Ans) : Prop := (⟨op, .ok a⟩ : Event Op.Ans Err) ∈ h

theorem lastPayout_shown {h : Hist} {p : Payout} (hp : lastPayout h = some p) :
    PayoutShown h p := by
  induction h with
  | nil => cases hp
  | cons e h ih =>
      rcases Option.or_eq_some_iff.mp hp with he | ⟨-, hp⟩
      · exact ⟨e, List.mem_cons_self, he⟩
      · obtain ⟨e', he', heq⟩ := ih hp
        exact ⟨e', List.mem_cons_of_mem _ he', heq⟩

@[simp] theorem sentPayout_nil : sentPayout [] = none := rfl

theorem sentPayout_cons {e : Event Op.Ans Err} {h : Hist} (he : e.op.isTransfer = false) :
    sentPayout (e :: h) = sentPayout h := by
  rw [sentPayout, if_neg (by simp [he]), Option.or_none]

theorem sentPayout_transfer {i : InitiateTransferInput} {h : Hist}
    {a : Except Err (Op.initiateTransfer i).Ans} (hnew : sentPayout h = none) :
    sentPayout (⟨.initiateTransfer i, a⟩ :: h) = lastPayout h := by
  rw [sentPayout, hnew, Option.none_or]
  rfl

/-- What a call saw when it first asked for a transfer does not change any more. -/
theorem sentPayout_append {h : Hist} {p : Payout} (hp : sentPayout h = some p) (l : Hist) :
    sentPayout (l ++ h) = some p := by
  induction l with
  | nil => exact hp
  | cons e l ih => rw [List.cons_append, sentPayout, ih, Option.some_or]

theorem lastPayment_shown {h : Hist} {p : Payment} (hp : lastPayment h = some p) :
    PaymentShown h p := by
  induction h with
  | nil => cases hp
  | cons e h ih =>
      rcases Option.or_eq_some_iff.mp hp with he | ⟨-, hp⟩
      · exact ⟨e, List.mem_cons_self, he⟩
      · obtain ⟨e', he', heq⟩ := ih hp
        exact ⟨e', List.mem_cons_of_mem _ he', heq⟩

theorem Saw.mono {h h' : Hist} {op : Op} {a : op.Ans} (hs : Saw h op a) (hsub : h ⊆ h') :
    Saw h' op a := hsub hs

theorem PayoutShown.mono {h h' : Hist} {p : Payout} (hp : PayoutShown h p) (hsub : h ⊆ h') :
    PayoutShown h' p := hp.imp fun _ he => ⟨hsub he.1, he.2⟩

theorem PaymentShown.mono {h h' : Hist} {p : Payment} (hp : PaymentShown h p) (hsub : h ⊆ h') :
    PaymentShown h' p := hp.imp fun _ he => ⟨hsub he.1, he.2⟩

theorem TransactionShown.mono {h h' : Hist} {t : Transaction} (ht : TransactionShown h t)
    (hsub : h ⊆ h') : TransactionShown h' t := ht.imp fun _ he => ⟨hsub he.1, he.2⟩

/-! ## What a call was told -/

variable (env : Env)

/-- The call is a signed delivery of this payload. -/
def Delivers (c : Call) (payload : PaystackWebhookPayload) : Prop :=
  ∃ rawBody signature, c = .paystackWebhook rawBody signature ∧
    verifyWebhookSignature env rawBody signature = true ∧ env.parse rawBody = some payload

/-- The call reports a failed or reversed transfer under this reference. -/
def ReportsFailed (c : Call) (key : String) : Prop :=
  match c with
  | .markFailed k _ _ => k = key
  | .paystackWebhook rawBody signature =>
      verifyWebhookSignature env rawBody signature = true ∧ ∃ payload,
        env.parse rawBody = some payload ∧ truthy payload.dataOrEmpty.reference = some key ∧
          (payload.event = "transfer.failed" ∨ payload.event = "transfer.reversed")
  | _ => False

/-- The call reports a successful transfer under this reference, with this code. -/
def ReportsSettled (c : Call) (key transferCode : String) : Prop :=
  match c with
  | .markPaid k code => k = key ∧ code = transferCode
  | .paystackWebhook rawBody signature =>
      verifyWebhookSignature env rawBody signature = true ∧ ∃ payload,
        env.parse rawBody = some payload ∧ truthy payload.dataOrEmpty.reference = some key ∧
          truthy payload.dataOrEmpty.transferCode = some transferCode ∧
          payload.event = "transfer.success"
  | _ => False

/-- The call reports a successful charge under this reference. -/
def ReportsCharge (c : Call) (reference : String) : Prop :=
  match c with
  | .paystackWebhook rawBody signature =>
      verifyWebhookSignature env rawBody signature = true ∧ ∃ payload,
        env.parse rawBody = some payload ∧ truthy payload.dataOrEmpty.reference = some reference ∧
          payload.event = "charge.success"
  | _ => False

/-- The call releases a transaction: a worker's run of its job, or the release itself. -/
def Call.Releases : Call → Prop
  | .executeRelease _ | .processRelease _ => True
  | _ => False

/-! ## The promise -/

/-- The references the code sends a payout's transfers under. -/
def IsReference (key reference : String) : Prop :=
  reference = key ∨ ∃ n, reference = retryReference key (n + 1)

/-- Where a transfer code written to a payout comes from: a lookup under one of its references, the
transfer just sent, or Paystack's report. -/
def CodeSource (c : Call) (h : Hist) (key transferCode : String) : Prop :=
  (∃ r v, Saw h (.fetchTransfer r) v ∧ v.transferCode = transferCode ∧
    (IsReference key r ∨
      ∃ p, PayoutShown h p ∧ p.idempotencyKey = key ∧ p.providerTransferReference = some r)) ∨
  (∃ i r p, Saw h (.initiateTransfer i) r ∧ r.transferCode = transferCode ∧ PayoutShown h p ∧
    p.idempotencyKey = key ∧ i.reason = transferReason p.transactionId) ∨
  ReportsSettled env c key transferCode

theorem CodeSource.mono {env : Env} {c : Call} {h h' : Hist} {key transferCode : String}
    (hc : CodeSource env c h key transferCode) (hsub : h ⊆ h') :
    CodeSource env c h' key transferCode := by
  rcases hc with ⟨r, v, hsaw, hv, hr⟩ | ⟨i, r, p, hsaw, hr, hp, hkey, hi⟩ | hc
  · refine .inl ⟨r, v, hsub hsaw, hv, hr.imp_right ?_⟩
    rintro ⟨p, hp, hkey, href⟩
    exact ⟨p, hp.mono hsub, hkey, href⟩
  · exact .inr (.inl ⟨i, r, p, hsub hsaw, hr, hp.mono hsub, hkey, hi⟩)
  · exact .inr (.inr hc)

/-- Where a transfer reference written to a payout comes from. -/
def ReferenceSource (h : Hist) (key reference : String) : Prop :=
  (∃ v, Saw h (.fetchTransfer reference) v ∧ IsReference key reference) ∨
  (∃ i r p, Saw h (.initiateTransfer i) r ∧ i.reference = reference ∧ PayoutShown h p ∧
    p.idempotencyKey = key ∧ i.reason = transferReason p.transactionId)

/-- Before a payout is written. -/
structure PayoutWrite (c : Call) (h : Hist) (key : String) (d : PayoutUpdate) : Prop where
  status : ∀ s, d.status = some s →
    ∃ p, lastPayout h = some p ∧ p.idempotencyKey = key ∧ p.status ≠ .success
  processing : d.status = some .processing → ∃ p q, lastPayout h = some p ∧
    sentPayout h = some q ∧ (p.status = q.status ∨ p.status = .processing)
  failed : d.status = some .failed ∨ d.status = some .reversed → ReportsFailed env c key
  code : ∀ code, d.providerTransferCode = some (some code) → CodeSource env c h key code
  reference : ∀ r, d.providerTransferReference = some (some r) → ReferenceSource h key r

/-- Before a transfer is sent: once in a call, for the payout the call saw last, under its key by the
release, or under a retry reference by an operator who saw it failed. -/
structure TransferSend (c : Call) (h : Hist) (i : InitiateTransferInput) (p : Payout) : Prop where
  last : lastPayout h = some p
  first : sentPayout h = none
  unsettled : p.status ≠ .success
  reason : i.reason = transferReason p.transactionId
  amount : i.amount = p.amount
  reference : (c.Releases ∧ i.reference = p.idempotencyKey) ∨
    ((∃ k a, c = .retryTransfer k a) ∧ (∃ n, i.reference = retryReference p.idempotencyKey (n + 1)) ∧
      p.status = .pending ∧ ∃ p₀, PayoutShown h p₀ ∧ p₀.idempotencyKey = p.idempotencyKey ∧
        (p₀.status = .failed ∨ p₀.status = .reversed))

/-- A charge Paystack verified as successful for the exact amount, under a reference of the
payment: its own, or one bound to it. -/
structure Verified (h : Hist) (p : Payment) (reference : String) (v : VerifyTransactionResult) :
    Prop where
  shown : PaymentShown h p
  ours : p.providerReference = reference ∨ p.providerChargeReference = some reference ∨
    Saw h (.paymentBindCharge p.id reference) 1
  asked : Saw h (.verifyTransaction reference) v
  success : v.status = "success"
  amount : v.amount = p.amount

/-- Before the status of a payment is written. -/
structure PaymentWrite (h : Hist) (id : Uuid) (s : PaymentStatus) : Prop where
  last : ∃ p, lastPayment h = some p ∧ p.id = id ∧ p.status ≠ .success
  success : s = .success → ∃ p reference v, p.id = id ∧ Verified h p reference v

/-- What drives a transition. -/
def EventJustified (h : Hist) (input : ApplyTransitionInput) : Prop :=
  match input.event with
  | .paymentVerified _ =>
      ∃ p reference v source d p', Verified h p reference v ∧ Saw h (.paymentUpdate p.id d) p' ∧
        d.status = some .success ∧ input = protection p.transactionId reference source
  | .payoutSucceeded =>
      ∃ p p', PayoutShown h p ∧ p.transactionId = input.transactionId ∧ PayoutShown h p' ∧
        p'.idempotencyKey = p.idempotencyKey ∧ p'.status = .success
  | event => drivenElsewhere event = true ∨ event = .buyerInitiateCheckout

/-- Before a transition is committed: the machine permitted it from what was loaded. -/
def CommitJustified (h : Hist) (d : TransitionWrite) : Prop :=
  ∃ input tx disputes nextState, Saw h
    (.transactionFindWithDisputes input.transactionId freezingDisputeStatuses) (some (tx, disputes)) ∧
    transition tx.status input.event (input.context tx disputes) = .ok nextState ∧
    d = input.write tx nextState ∧ EventJustified h input

/-- **The promise.** What the history of a call shows before each of its operations. -/
def Justified (c : Call) (h : Hist) : Op → Prop
  | .transactionCreate d => d.status = .draft
  | .commitTransition d => CommitJustified h d
  | .payoutCreate d =>
      ∃ t, TransactionShown h t ∧ t.id = d.transactionId ∧ t.status = .releaseProcessing ∧
        d.idempotencyKey = releaseIdempotencyKey t.id ∧ d.status = .pending ∧
        d.amount = sellerSettlement t.amount t.feeModel t.feeAmount
  | .payoutUpdate key d => PayoutWrite env c h key d
  | .initiateTransfer i => ∃ p, TransferSend c h i p
  | .paymentCreate d =>
      d.status = .pending ∧ isOurReference d.providerReference = true ∧
        ∃ t, TransactionShown h t ∧ t.id = d.transactionId ∧ d.amount = chargeAmountFor t
  | .paymentUpdate id d => ∀ s, d.status = some s → PaymentWrite h id s
  | .paymentBindCharge _ reference =>
      ReportsCharge env c reference ∧ Saw h (.paymentFindUnique (.providerReference reference)) none
  | .initializeTransaction i =>
      ∃ d p, Saw h (.paymentCreate d) p ∧ d.providerReference = i.reference
  | .webhookEventCreate d =>
      ∃ payload, Delivers env c payload ∧ d = ⟨eventKey payload, payload.event, payload⟩
  | .auditLogCreate d => d.action ≠ "transaction.status_change"
  | _ => True

/-- The operations that need no justification. -/
def Op.isFree : Op → Prop
  | .transactionCreate _ | .commitTransition _ | .payoutCreate _ | .payoutUpdate .. => False
  | .initiateTransfer _ | .paymentCreate _ | .paymentUpdate .. | .paymentBindCharge .. => False
  | .initializeTransaction _ | .webhookEventCreate _ => False
  | .auditLogCreate d => d.action ≠ "transaction.status_change"
  | _ => True

variable {env}

theorem isFree_of_isQuiet (op : Op) (hop : op.isQuiet) : op.isFree := by
  cases op with
  | invoiceUpdateManyPaid _ _ | invoiceFindFirst _ => trivial
  | auditLogCreate d => exact hop
  | transactionFindUnique _ | enqueueChatOutbound _ => trivial
  | _ => exact hop.elim

theorem justified_of_isFree {c : Call} (h : Hist) (op : Op) (hop : op.isFree) :
    Justified env c h op := by
  cases op with
  | auditLogCreate d => exact hop
  | _ => trivial

end Meduman
