import Meduman.Model.Payments
import Meduman.Model.Payouts

/-!
# Releases

Who puts a transaction into `RELEASE_PROCESSING`, and the queue between them and the payout: each
commits the transition first and enqueues the release afterwards.

* `raise`, `resolve` : disputes
* `confirm` : the buyer confirms
* `scanAndRelease` : the confirmation window is over
* `processRelease` : the worker's run of one job
-/

set_option autoImplicit false

namespace Meduman

open Effect

/-! ## Disputes -/

/-- `OPEN_DISPUTE_STATUSES` -/
def openDisputeStatuses : List DisputeStatus := [.open, .underReview]

structure RaiseDisputeInput where
  transactionId : Uuid
  openedBy : Uuid
  role : Option String := none
  reason : DisputeReason
  description : Option String := none
  desiredOutcome : Option DisputeOutcome := none

/-- The two outcomes of a dispute. -/
inductive ResolutionOutcome
  | release | refund
deriving DecidableEq, Repr

structure ResolveDisputeInput where
  disputeId : Uuid
  resolvedBy : Uuid
  outcome : ResolutionOutcome
  resolution : Option String := none

/-- The `RAISE_DISPUTE` of a complaint. -/
def RaiseDisputeInput.event (input : RaiseDisputeInput) : ApplyTransitionInput where
  transactionId := input.transactionId
  event := .raiseDispute
  actor := { id := some input.openedBy.text, type := .user, role := some (input.role.getD "BUYER") }
  reason := truthy input.description

/-- Raise a dispute: the transition, then the row. -/
def raise (input : RaiseDisputeInput) : Program Dispute := do
  let _ ← apply input.event
  await (.disputeCreate
    { transactionId := input.transactionId, openedBy := input.openedBy, reason := input.reason,
      status := .open, description := truthy input.description,
      desiredOutcome := input.desiredOutcome })

/-- The transition of a resolution; the other open disputes of the transaction decide the freeze. -/
def ResolveDisputeInput.event (input : ResolveDisputeInput) (dispute : Dispute) (otherOpen : Nat) :
    ApplyTransitionInput where
  transactionId := dispute.transactionId
  event := match input.outcome with
    | .release => .resolveDisputeForSeller
    | .refund => .resolveDisputeForBuyer
  actor := { id := some input.resolvedBy.text, type := .admin, role := some "ADMIN" }
  reason := truthy input.resolution
  hasOpenDispute := some (0 < otherOpen)

/-- Seller-favour resolutions enqueue the payout. -/
def enqueueResolved (outcome : ResolutionOutcome) (transactionId : Uuid) : Program Unit :=
  match outcome with
  | .release => await (.enqueueRelease transactionId)
  | .refund => pure ()

/-- The status of a resolved dispute. -/
def ResolutionOutcome.status : ResolutionOutcome → DisputeStatus
  | release => .resolvedRelease
  | refund => .resolvedRefund

/-- Resolve a dispute: the transition, the release job, then the row. -/
def resolve (input : ResolveDisputeInput) : Program Dispute := do
  match ← await (.disputeFindUnique input.disputeId) with
  | none => Prog.throw (.notFound ("Dispute " ++ input.disputeId.text ++ " not found"))
  | some dispute =>
    if !openDisputeStatuses.contains dispute.status then
      Prog.throw (.badRequest
        ("Dispute " ++ input.disputeId.text ++ " is already " ++ dispute.status.text))
    else do
      let otherOpen ← await
        (.disputeCountOthers dispute.transactionId openDisputeStatuses dispute.id)
      let _ ← apply (input.event dispute otherOpen)
      enqueueResolved input.outcome dispute.transactionId
      await (.disputeUpdate dispute.id
        { status := input.outcome.status, resolvedBy := input.resolvedBy,
          resolution := input.resolution })

/-! ## Confirmation -/

def getById (id : Uuid) : Program Transaction := do
  match ← await (.transactionFindUnique (.id id)) with
  | none => Prog.throw (.notFound ("Transaction " ++ id.text ++ " not found"))
  | some tx => pure tx

/-- The `BUYER_CONFIRM` of a confirmed delivery. -/
def confirmation (id buyerId : Uuid) (reason : Option String) : ApplyTransitionInput where
  transactionId := id
  event := .buyerConfirm
  actor := { id := some buyerId.text, type := .user, role := some "BUYER" }
  reason := reason

/-- The buyer confirms delivery; who confirms by a code sends it first and gives that as the
reason. -/
def confirm (id buyerId : Uuid) (reason : Option String) : Program Transaction := do
  let tx ← getById id
  if tx.buyerId ≠ some buyerId then
    Prog.throw (.forbidden "Only the buyer can confirm this transaction")
  else do
    let updated ← apply (confirmation id buyerId reason)
    await (.enqueueRelease id)
    pure updated

/-! ## The window -/

/-- The `AUTO_CONFIRM` of the scan. -/
def autoConfirmation (id : Uuid) : ApplyTransitionInput where
  transactionId := id
  event := .autoConfirm
  actor := { type := .system, role := some "SYSTEM" }
  reason := some "auto-release window elapsed"
  autoConfirmWindowElapsed := some true

/-- The loop of `scanAndRelease`: a refused candidate is skipped. -/
def scanEach (windowMs now : Int) : List (Transaction × Option Int) → Nat → Program Nat
  | [], released => pure released
  | (_, none) :: rest, released => scanEach windowMs now rest released
  | (tx, some enteredAt) :: rest, released =>
      if now - enteredAt < windowMs then scanEach windowMs now rest released
      else do
        let one ← (do
          let _ ← apply (autoConfirmation tx.id)
          await (.enqueueRelease tx.id)
          pure 1 : Program Nat).tryCatch fun _ => pure 0
        scanEach windowMs now rest (released + one)

/-- Release what nobody confirmed within the window. -/
def scanAndRelease (env : Env) : Program Nat := do
  let now ← await .now
  let candidates ← await .transactionFindAutoReleasable
  scanEach (env.autoReleaseWindowHours * 3600000) now candidates 0

/-! ## The worker -/

/-- A worker runs the job of a transaction: one attempt, which completes or fails. -/
def processRelease (transactionId : Uuid) : Program Unit := do
  let start ← await (.startReleaseJob transactionId)
  let executed ← (do
    let _ ← executeRelease transactionId
    pure true : Program Bool).tryCatch fun _ => pure false
  if executed then await (.completeReleaseJob transactionId start)
  else await (.failReleaseJob transactionId start)

end Meduman
