import Meduman.Model.Transactions

/-!
# Payments

Inbound collection: a hosted checkout or a dedicated virtual account, both converging on one
verify-and-protect core.

* `initializeCollection`, `initializeVirtualAccount` : open a charge
* `handleChargeSuccess`, `resolveDvaPayment` : from a reported charge to the payment it is for
* `verifyAndProtectPayment` : the core
* `verifyAndProtect`, `reconcilePayment`, `reconcilePending` : its other callers
-/

set_option autoImplicit false

namespace Meduman

open Effect

/-- The configuration, and the functions of the runtime the services rest on. -/
structure Env where
  /-- `createHmac('sha512', secretKey).update(rawBody).digest('hex')` -/
  digest : String → String
  /-- `JSON.parse`, read as a webhook payload -/
  parse : String → Option PaystackWebhookPayload
  /-- `Date.parse`; none is `NaN` -/
  dateParse : String → Option Int
  webhookMaxAgeSeconds : Int
  paymentReconcileAfterSeconds : Int
  autoReleaseWindowHours : Int
  appUrl : String

/-- Charge amount in kobo: the protected amount, and the buyer's fee when the buyer pays it. -/
def chargeAmountFor (tx : Transaction) : Int :=
  tx.amount + if tx.feeModel = .buyerPays then tx.feeAmount else 0

structure InitializeCollectionInput where
  transactionId : Option Uuid
  publicLinkId : Option String
  buyerId : Uuid
  email : String

structure InitializeCollectionResult where
  paymentId : Uuid
  reference : String
  authorizationUrl : String

structure VirtualAccountView where
  paymentId : Uuid
  accountNumber : Option String
  bankName : Option String

def resolveTransaction (input : InitializeCollectionInput) : Program (Option Transaction) :=
  match input.transactionId, truthy input.publicLinkId with
  | some id, _ => await (.transactionFindUnique (.id id))
  | none, some link => await (.transactionFindUnique (.publicLinkId link))
  | none, none => pure none

/-- The `BUYER_INITIATE_CHECKOUT` of both collection shapes. -/
def checkout (transactionId buyerId : Uuid) : ApplyTransitionInput where
  transactionId := transactionId
  event := .buyerInitiateCheckout
  actor := { id := some buyerId.text, type := .user, role := some "BUYER" }

/-- Link the buyer of a transaction that has none. -/
def linkBuyer (tx : Transaction) (buyerId : Uuid) : Program Unit :=
  if tx.buyerId.isNone then await (.transactionUpdateBuyer tx.id buyerId) else pure ()

/-- Buyer initiates checkout. -/
def initializeCollection (env : Env) (input : InitializeCollectionInput) :
    Program InitializeCollectionResult := do
  match ← resolveTransaction input with
  | none =>
      Prog.throw (.notFound ("Transaction " ++
        ((input.transactionId.map Uuid.text).or (truthy input.publicLinkId)).getD "unknown" ++
        " not found"))
  | some tx => do
      let _ ← apply (checkout tx.id input.buyerId)
      linkBuyer tx input.buyerId
      let uuid ← await .randomUUID
      let reference := "mdn_" ++ uuid.hex
      let payment ← await (.paymentCreate
        { transactionId := tx.id, providerReference := reference, amount := chargeAmountFor tx,
          currency := tx.currency, status := .pending })
      let authorizationUrl ← await (.initializeTransaction
        { email := input.email, amount := chargeAmountFor tx, reference := reference,
          callbackUrl := env.appUrl ++ "/payments/" ++ reference ++ "/verify",
          transactionId := tx.id, paymentId := payment.id })
      pure { paymentId := payment.id, reference := reference, authorizationUrl := authorizationUrl }

/-- Buyer pays by bank transfer to a dedicated virtual account. -/
def initializeVirtualAccount (transactionId buyerId : Uuid) (email : String) :
    Program VirtualAccountView := do
  match ← await (.transactionFindUnique (.id transactionId)) with
  | none => Prog.throw (.notFound ("Transaction " ++ transactionId.text ++ " not found"))
  | some tx => do
      match ← await (.paymentFindFirst
          { transactionId := some tx.id, status := some .pending,
            providerCustomerCode := .notNull }) with
      | some existing =>
          pure { paymentId := existing.id, accountNumber := existing.virtualAccountNumber,
                 bankName := existing.virtualAccountBank }
      | none => do
          let _ ← apply (checkout tx.id buyerId)
          linkBuyer tx buyerId
          let uuid ← await .randomUUID
          let customerCode ← await (.createCustomer email)
          let account ← await (.createDedicatedAccount customerCode)
          let payment ← await (.paymentCreate
            { transactionId := tx.id, providerReference := "mdn_dva_" ++ uuid.hex,
              providerCustomerCode := some customerCode, amount := chargeAmountFor tx,
              currency := tx.currency, status := .pending,
              virtualAccountNumber := truthy account.accountNumber,
              virtualAccountBank := truthy account.bankName,
              providerDedicatedAccountId := truthy account.dedicatedAccountId })
          pure { paymentId := payment.id, accountNumber := account.accountNumber,
                 bankName := account.bankName }

/-- Store the dedicated account details once Paystack assigns them. -/
def attachDedicatedAccount (customerCode accountNumber bankName : String)
    (dedicatedAccountId : Option String) : Program (Option Payment) := do
  match ← await (.paymentFindFirst
      { status := some .pending, providerCustomerCode := .equals customerCode }) with
  | none => pure none
  | some payment => do
      let updated ← await (.paymentUpdate payment.id
        { virtualAccountNumber := some accountNumber, virtualAccountBank := some bankName,
          providerDedicatedAccountId := truthy dedicatedAccountId })
      match ← await (.transactionFindUnique (.id payment.transactionId)) with
      | none => pure (some updated)
      | some tx =>
          match tx.buyerId with
          | none => pure (some updated)
          | some buyerId => do
              await (.enqueueChatOutbound
                { userId := buyerId, templateKey := "payment.dva_assigned",
                  data := [("accountNumber", .str accountNumber), ("bankName", .str bankName),
                    ("amount", .int payment.amount), ("transactionTitle", .str tx.title)] })
              pure (some updated)

/-- Only these two sources may protect a transaction. -/
inductive TrustedPaymentSource
  | webhook | serverVerify
deriving DecidableEq, Repr

def TrustedPaymentSource.source : TrustedPaymentSource → PaymentSource
  | webhook => .webhook
  | serverVerify => .serverVerify

/-- Derive the invoice's `PAID` from the protection of its transaction. -/
def markPaidByTransaction (transactionId : Uuid) : Program Unit := do
  let count ← await (.invoiceUpdateManyPaid transactionId [.sent, .viewed, .overdue])
  if count = 1 then do
    match ← await (.invoiceFindFirst transactionId) with
    | none => pure ()
    | some invoice =>
        await (.auditLogCreate
          { actorId := none, actorType := .system, action := "invoice.paid",
            targetType := "Invoice", targetId := some invoice.id.text, reason := none,
            metadata := [("to", .str "PAID")] })
  else pure ()

/-- Push "funds protected" to buyer and seller. -/
def notifyProtected (transactionId : Uuid) : Program Unit := do
  match ← await (.transactionFindUnique (.id transactionId)) with
  | none => pure ()
  | some tx => do
      let data := [("transactionTitle", Scalar.str tx.title), ("amount", .int tx.amount)]
      match tx.buyerId with
      | none => pure ()
      | some buyerId =>
          await (.enqueueChatOutbound
            { userId := buyerId, templateKey := "payment.protected_buyer", data := data })
      await (.enqueueChatOutbound
        { userId := tx.sellerId, templateKey := "payment.protected_seller", data := data })

/-- The reason recorded with a protection. -/
def protectReason (reference : String) (source : TrustedPaymentSource) : String :=
  "payment " ++ reference ++ " verified via " ++ source.source.text

/-- The `PAYMENT_VERIFIED` that protects a transaction. -/
def protection (transactionId : Uuid) (verifyReference : String) (source : TrustedPaymentSource) :
    ApplyTransitionInput where
  transactionId := transactionId
  event := .paymentVerified source.source
  actor := { type := .system, role := some "SYSTEM" }
  reason := some (protectReason verifyReference source)

/-- The shared verify-and-protect core. -/
def verifyAndProtectPayment (payment : Payment) (verifyReference : String)
    (source : TrustedPaymentSource) : Program Payment :=
  if payment.status = .success then do
    -- the early return heals the invoice only
    markPaidByTransaction payment.transactionId
    pure payment
  else do
    let verified ← await (.verifyTransaction verifyReference)
    if verified.status ≠ "success" then
      await (.paymentUpdate payment.id
        { status := some (if verified.status = "abandoned" then .abandoned else .failed),
          rawPayload := some verified })
    else if verified.amount ≠ payment.amount then
      Prog.throw (.amountMismatch verifyReference payment.amount verified.amount)
    else do
      let updated ← await (.paymentUpdate payment.id
        { status := some .success, rawPayload := some verified })
      let _ ← apply (protection payment.transactionId verifyReference source)
      markPaidByTransaction payment.transactionId
      notifyProtected payment.transactionId
      pure updated

/-- Resolve the payment of a charge to a dedicated account and bind Paystack's reference to it. -/
def resolveDvaPayment (customerCode chargeReference : String) : Program (Option Payment) := do
  match ← await (.paymentFindUnique (.providerChargeReference chargeReference)) with
  | some alreadyBound => pure (some alreadyBound)
  | none => do
      match ← await (.paymentFindFirst { providerCustomerCode := .equals customerCode }) with
      | none => pure none
      | some payment => do
          let count ← await (.paymentBindCharge payment.id chargeReference)
          if count ≠ 1 then
            await (.paymentFindUnique (.providerChargeReference chargeReference))
          else await (.paymentFindUnique (.id payment.id))

/-- Route a `charge.success` to the right payment; false when nothing matched. -/
def handleChargeSuccess (reference : String) (customerCode : Option String)
    (source : TrustedPaymentSource) : Program Bool := do
  match ← await (.paymentFindUnique (.providerReference reference)) with
  | some hosted => do
      let _ ← verifyAndProtectPayment hosted reference source
      pure true
  | none =>
      match truthy customerCode with
      | none => pure false
      | some customerCode => do
          match ← resolveDvaPayment customerCode reference with
          | none => pure false
          | some payment => do
              let _ ← verifyAndProtectPayment payment reference source
              pure true

/-- Server-side verify against the checkout reference. -/
def verifyAndProtect (reference : String) (source : TrustedPaymentSource) : Program Payment := do
  match ← await (.paymentFindUnique (.providerReference reference)) with
  | none => Prog.throw (.notFound ("Payment " ++ reference ++ " not found"))
  | some payment => verifyAndProtectPayment payment reference source

/-- Re-verify one known payment; nothing to do once it is no longer pending. -/
def reconcilePayment (paymentId : Uuid) : Program Payment := do
  match ← await (.paymentFindUnique (.id paymentId)) with
  | none => Prog.throw (.notFound ("Payment " ++ paymentId.text ++ " not found"))
  | some payment =>
    if payment.status ≠ .pending then pure payment
    else
      verifyAndProtectPayment payment
        (payment.providerChargeReference.getD payment.providerReference) .serverVerify

/-- The loop of `reconcilePending`: a payment whose verification throws is skipped. Returns how many
reached `SUCCESS`. -/
def reconcileEach : List Payment → Nat → Program Nat
  | [], protectedCount => pure protectedCount
  | payment :: rest, protectedCount => do
      let reached ← (do
        let result ← reconcilePayment payment.id
        pure (if result.status = .success then 1 else 0) : Program Nat).tryCatch fun _ => pure 0
      reconcileEach rest (protectedCount + reached)

/-- Re-verify recent stranded charges; `now` is in milliseconds. -/
def reconcilePending (env : Env) : Program (Nat × Nat) := do
  let now ← await .now
  let stranded ← await (.paymentFindMany .pending
    (now - env.paymentReconcileAfterSeconds * 1000) 100)
  let protectedCount ← reconcileEach stranded 0
  pure (stranded.length, protectedCount)

end Meduman
