import Meduman.Model.Transactions

/-!
# Payouts

Idempotent release execution: one payout row for a transaction, one transfer sent for it, retried by
an operator under a fresh reference, settled or failed by signed webhooks.

* `executeRelease`, `authorizePayout`, `sendTransfer` : authorize and disburse
* `retryTransfer` : re-send a failed or reversed transfer
* `markPaid`, `markFailed` : record what Paystack reports
-/

set_option autoImplicit false

namespace Meduman

open Effect

/-- Deterministic idempotency key. -/
def releaseIdempotencyKey (transactionId : Uuid) : String := "release:" ++ transactionId.text

/-- The seller's settlement amount in kobo. -/
def sellerSettlement (amount : Int) (feeModel : FeeModel) (feeAmount : Int) : Int :=
  match feeModel with
  | .buyerPays => amount
  | .sellerPays => amount - feeAmount

/-- The `reason` of the transfers of a transaction. -/
def transferReason (transactionId : Uuid) : String := "Meduman release " ++ transactionId.text

/-- The reference of an operator's retry. -/
def retryReference (idempotencyKey : String) (attempt : Nat) : String :=
  idempotencyKey ++ ":r" ++ toString attempt

/-- Look up a transfer by our reference; every failure of the request counts as no transfer. -/
def verifyTransfer (reference : String) : Program (Option VerifyTransferResult) :=
  (do let found ← await (.fetchTransfer reference)
      pure (some found)).tryCatch fun _ => pure none

/-- An audit row about a payout. -/
def payoutAudit (payout : Payout) (action : String) (actorId : Option String)
    (actorType : ActorType) (reason : Option String) (metadata : List (String × Scalar)) :
    AuditLog where
  actorId := actorId
  actorType := actorType
  action := action
  targetType := "Payout"
  targetId := some payout.id.text
  reason := reason
  metadata := ("transactionId", .str payout.transactionId.text) :: metadata

def recordTransferSent (payout : Payout) (providerTransferCode providerTransferReference : String) :
    Program Payout := do
  let updated ← await (.payoutUpdate payout.idempotencyKey
    { providerTransferCode := some (some providerTransferCode)
      providerTransferReference := some (some providerTransferReference)
      status := some .processing
      attemptCountIncrement := 1
      lastError := some none })
  await (.auditLogCreate (payoutAudit payout "payout.transfer_sent" none .system none
    [("idempotencyKey", .str payout.idempotencyKey), ("amount", .int payout.amount),
      ("providerTransferCode", .str providerTransferCode)]))
  pure updated

/-- The payout is returned untouched once it settled or carries a transfer code. -/
def sendTransfer (payout : Payout) (reference : Option String) : Program Payout :=
  if payout.status = .success ∨ truthy payout.providerTransferCode ≠ none then pure payout
  else do
    let providerReference := reference.getD payout.idempotencyKey
    match (← await (.sellerProfileFindUnique payout.sellerId)).bind
        fun seller => truthy seller.providerRecipientCode with
    | none =>
        Prog.throw (.unprocessable ("Seller " ++ payout.sellerId.text ++
          " has no payout destination — transfer not sent"))
    | some recipient =>
        (do let transfer ← await (.initiateTransfer
              { amount := payout.amount, recipient := recipient, reference := providerReference,
                reason := transferReason payout.transactionId })
            recordTransferSent payout transfer.transferCode providerReference).tryCatch fun err => do
          match ← verifyTransfer providerReference with
          | some existing => recordTransferSent payout existing.transferCode providerReference
          | none => do
              let _ ← await (.payoutUpdate payout.idempotencyKey
                { lastError := some (some err.message), attemptCountIncrement := 1 })
              await (.auditLogCreate (payoutAudit payout "payout.transfer_send_failed" none .system
                (some err.message) [("idempotencyKey", .str payout.idempotencyKey),
                  ("amount", .int payout.amount)]))
              Prog.throw err

/-- Create the single payout row of a transaction, or reuse the existing one. -/
def authorizePayout (tx : Transaction) : Program Payout :=
  (await (.payoutCreate
    { transactionId := tx.id, sellerId := tx.sellerId, idempotencyKey := releaseIdempotencyKey tx.id,
      amount := sellerSettlement tx.amount tx.feeModel tx.feeAmount, currency := tx.currency,
      status := .pending, merchantId := tx.merchantId })).tryCatch fun err =>
    if err.isUniqueViolation then do
      match ← await (.payoutFindUnique (releaseIdempotencyKey tx.id)) with
      | some existing => pure existing
      | none => Prog.throw err
    else Prog.throw err

def executeRelease (transactionId : Uuid) : Program Payout := do
  match ← await (.transactionFindUnique (.id transactionId)) with
  | none => Prog.throw (.notFound ("Transaction " ++ transactionId.text ++ " not found"))
  | some tx =>
    if tx.status ≠ .releaseProcessing then
      Prog.throw (.plain ("Transaction " ++ transactionId.text ++ " is " ++ tx.status.text ++
        ", expected RELEASE_PROCESSING before payout"))
    else do
      let openDisputes ← await (.disputeCount tx.id .open)
      if 0 < openDisputes then
        Prog.throw (.conflict ("Transaction " ++ transactionId.text ++
          " has an open dispute — release is frozen"))
      else do
        let payout ← authorizePayout tx
        sendTransfer payout none

/-- Record a confirmed transfer and complete the transaction. -/
def markPaid (idempotencyKey providerTransferCode : String) : Program Payout := do
  match ← await (.payoutFindUnique idempotencyKey) with
  | none => Prog.throw (.notFound ("Payout " ++ idempotencyKey ++ " not found"))
  | some payout =>
    if payout.status = .success then pure payout
    else do
      let updated ← await (.payoutUpdate idempotencyKey
        { status := some .success, providerTransferCode := some (some providerTransferCode) })
      let _ ← apply
        { transactionId := payout.transactionId
          event := .payoutSucceeded
          actor := { type := .system, role := some "SYSTEM" }
          reason := some ("payout " ++ idempotencyKey ++ " settled (" ++ providerTransferCode ++ ")") }
      pure updated

/-- The two failures a webhook reports. -/
inductive FailedStatus
  | failed | reversed
deriving DecidableEq, Repr

def FailedStatus.status : FailedStatus → PayoutStatus
  | failed => .failed
  | reversed => .reversed

/-- Record a failed or reversed transfer; a settled payout is left alone. -/
def markFailed (idempotencyKey : String) (status : FailedStatus) (reason : String) :
    Program Payout := do
  match ← await (.payoutFindUnique idempotencyKey) with
  | none => Prog.throw (.notFound ("Payout " ++ idempotencyKey ++ " not found"))
  | some payout =>
    if payout.status = .success then pure payout
    else do
      let updated ← await (.payoutUpdate idempotencyKey
        { status := some status.status, lastError := some (some reason) })
      await (.auditLogCreate (payoutAudit payout
        (match status with
          | .reversed => "payout.transfer_reversed"
          | .failed => "payout.transfer_failed")
        none .system (some reason)
        [("idempotencyKey", .str idempotencyKey), ("amount", .int payout.amount)]))
      pure updated

/-- Re-send a payout whose transfer failed or was reversed. -/
def retryTransfer (idempotencyKey adminId : String) : Program Payout := do
  match ← await (.payoutFindUnique idempotencyKey) with
  | none => Prog.throw (.notFound ("Payout " ++ idempotencyKey ++ " not found"))
  | some payout =>
    if payout.status = .success then
      Prog.throw (.conflict ("Payout " ++ idempotencyKey ++ " already settled — nothing to retry"))
    else if payout.status ≠ .failed ∧ payout.status ≠ .reversed then
      Prog.throw (.conflict ("Payout " ++ idempotencyKey ++ " is " ++ payout.status.text ++
        " — only a failed or reversed transfer can be retried"))
    else do
      let openDisputes ← await (.disputeCount payout.transactionId .open)
      if 0 < openDisputes then
        Prog.throw (.conflict ("Transaction " ++ payout.transactionId.text ++
          " has an open dispute — release is frozen"))
      else do
        let priorReference := payout.providerTransferReference.getD payout.idempotencyKey
        let prior ← verifyTransfer priorReference
        match prior.filter fun p => p.status = "success" with
        | some prior => do
            await (.auditLogCreate (payoutAudit payout "payout.retry_aborted_already_paid"
              (some adminId) .admin (some ("Provider reports " ++ priorReference ++ " succeeded"))
              [("providerTransferCode", .str prior.transferCode)]))
            markPaid idempotencyKey prior.transferCode
        | none => do
            let nextReference := retryReference payout.idempotencyKey (payout.attemptCount + 1)
            await (.auditLogCreate (payoutAudit payout "payout.transfer_retried" (some adminId)
              .admin (some (payout.lastError.getD ("Retry after " ++ payout.status.text)))
              [("amount", .int payout.amount), ("previousReference", .str priorReference),
                ("providerTransferReference", .str nextReference)]))
            let reset ← await (.payoutUpdate idempotencyKey
              { status := some .pending, providerTransferCode := some none, lastError := some none })
            sendTransfer reset (some nextReference)

end Meduman
