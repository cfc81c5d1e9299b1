import Meduman.Effect.Backend
import Meduman.Effect.Policy
import Meduman.Model.Transactions
import Meduman.Model.Webhooks

/-!
# One-time codes

Codes for a buyer's step-up: random, stored as a keyed hash, valid once, for a time and a number of
attempts.

* `Otp.OtpCode`, `Otp.World` : the rows, and what surrounds them
* `Otp.issue` : retire the earlier codes, create a new one
* `Otp.verify` : check a submitted code against the newest one
* `Otp.service` : both, in any company
-/

set_option autoImplicit false

namespace Meduman.Otp

open Effect

inductive OtpPurpose
  | deliveryConfirmation | releaseAuthorization | highValueStepup
deriving DecidableEq, Repr

def OtpPurpose.text : OtpPurpose → String
  | deliveryConfirmation => "DELIVERY_CONFIRMATION"
  | releaseAuthorization => "RELEASE_AUTHORIZATION"
  | highValueStepup => "HIGH_VALUE_STEPUP"

structure OtpCode where
  id : Uuid
  transactionId : Uuid
  codeHash : String
  purpose : OtpPurpose
  expiresAt : Int
  attemptCount : Nat
  consumedAt : Option Int
  createdAt : Int
deriving DecidableEq

instance : Constrained OtpCode where
  clash a b := a.id == b.id
  clash_comm _ _ := Bool.beq_comm

/-! ## Errors -/

/-- Why a verification failed; the client is not told. -/
inductive OtpFailureReason
  | noActiveCode | expired | locked | mismatch
deriving DecidableEq, Repr

def OtpFailureReason.text : OtpFailureReason → String
  | noActiveCode => "NO_ACTIVE_CODE"
  | expired => "EXPIRED"
  | locked => "LOCKED"
  | mismatch => "MISMATCH"

inductive Err
  | notFound (message : String)
  | otpNotIssuable (message : String)
  | otpVerification (reason : OtpFailureReason) (message : String)
  | prisma (message : String)
  | plain (message : String)
deriving DecidableEq

/-! ## The world and its operations -/

/-- The settings, and the keyed hash. -/
structure Env where
  /-- `hashCode(code, OTP_HASH_SECRET)` -/
  hashCode : String → String
  otpLength : Nat
  otpTtlSeconds : Int
  otpMaxAttempts : Nat

structure OtpNotificationJobData where
  transactionId : Uuid
  otpId : Uuid
  code : String
  purpose : OtpPurpose
deriving DecidableEq

structure World where
  clock : Int
  transactions : Table Transaction
  otpCodes : Table OtpCode
  auditLogs : List AuditLog
  notifications : List OtpNotificationJobData

def World.initial : World := ⟨0, .empty, .empty, [], []⟩

structure OtpCodeCreate where
  transactionId : Uuid
  purpose : OtpPurpose
  codeHash : String
  expiresAt : Int
deriving DecidableEq

def OtpCodeCreate.row (d : OtpCodeCreate) (id : Uuid) (now : Int) : OtpCode where
  id := id
  transactionId := d.transactionId
  codeHash := d.codeHash
  purpose := d.purpose
  expiresAt := d.expiresAt
  attemptCount := 0
  consumedAt := none
  createdAt := now

/-- An unconsumed code of this transaction and purpose. -/
def active (transactionId : Uuid) (purpose : OtpPurpose) (c : OtpCode) : Bool :=
  c.transactionId == transactionId && c.purpose == purpose && c.consumedAt.isNone

inductive Op
  | transactionFindUnique (id : Uuid)
  | otpCodeRetire (transactionId : Uuid) (purpose : OtpPurpose) (consumedAt : Int)
  | generateNumericCode (length : Nat)
  | otpCodeCreate (data : OtpCodeCreate)
  | otpCodeFindFirst (transactionId : Uuid) (purpose : OtpPurpose)
  | otpCodeIncrementAttempts (id : Uuid)
  /-- `timingSafeEqualHex(candidate, c.codeHash)` : an operation, so that a history shows every comparison -/
  | compare (candidate : String) (c : OtpCode)
  | otpCodeConsume (id : Uuid) (consumedAt : Int)
  | auditLogCreate (data : AuditLog)
  | enqueueOtpCode (data : OtpNotificationJobData)
  | now
deriving DecidableEq

@[reducible] def Op.Ans : Op → Type
  | transactionFindUnique _ => Option Transaction
  | otpCodeRetire .. => Nat
  | generateNumericCode _ => String
  | otpCodeCreate _ => OtpCode
  | otpCodeFindFirst .. => Option OtpCode
  | otpCodeIncrementAttempts _ => Unit
  | compare .. => Bool
  | otpCodeConsume .. => Nat
  | auditLogCreate _ => Unit
  | enqueueOtpCode _ => Unit
  | now => Int

abbrev Program := Prog Op.Ans Err

abbrev await (op : Op) : Program op.Ans := Prog.perform op

/-- A generated identifier, a generated code, and which of the codes created at one instant a query
for the newest returns. -/
structure Supply where
  id : Uuid
  code : String := ""
  pick : Nat := 0
deriving DecidableEq

def timingSafeEqualHex (a b : String) : Bool := Text.unhex a.toList == Text.unhex b.toList

/-- Codes of one transaction and purpose, those created last. -/
def newest (transactionId : Uuid) (purpose : OtpPurpose) (t : Table OtpCode) : List OtpCode :=
  let codes := t.filter (active transactionId purpose)
  codes.filter fun c => codes.all fun d => d.createdAt ≤ c.createdAt

/-- `otpCode.updateMany`, with the number of rows it changed. -/
def updateMany (selects : OtpCode → Bool) (f : OtpCode → OtpCode) (w : World) :
    Except Err Nat × World :=
  match w.otpCodes.update selects f with
  | none => (.error (.prisma "Unique constraint failed"), w)
  | some otpCodes => (.ok (w.otpCodes.count selects), { w with otpCodes := otpCodes })

/-- `attemptCount: { increment: 1 }` -/
def incrementAttempts (id : Uuid) (w : World) : Except Err Unit × World :=
  match w.otpCodes.find fun c => c.id == id with
  | none => (.error (.prisma "Record to update not found"), w)
  | some _ =>
      match w.otpCodes.update (fun c => c.id == id)
          fun c => { c with attemptCount := c.attemptCount + 1 } with
      | none => (.error (.prisma "Unique constraint failed"), w)
      | some otpCodes => (.ok (), { w with otpCodes := otpCodes })

/-- What a served operation answers, and the world it leaves. -/
def effect (s : Supply) (w : World) : (op : Op) → Except Err op.Ans × World
  | .transactionFindUnique id => (.ok (w.transactions.find fun t => t.id == id), w)
  | .otpCodeRetire transactionId purpose consumedAt =>
      updateMany (active transactionId purpose)
        (fun c => { c with consumedAt := some consumedAt }) w
  | .generateNumericCode _ => (.ok s.code, w)
  | .otpCodeCreate d =>
      match w.otpCodes.create (d.row s.id w.clock) with
      | none => (.error (.prisma "Unique constraint failed"), w)
      | some otpCodes => (.ok (d.row s.id w.clock), { w with otpCodes := otpCodes })
  | .otpCodeFindFirst transactionId purpose =>
      let codes := newest transactionId purpose w.otpCodes
      (.ok (codes[s.pick]?.or codes[0]?), w)
  | .otpCodeIncrementAttempts id => incrementAttempts id w
  | .compare candidate c => (.ok (timingSafeEqualHex candidate c.codeHash), w)
  | .otpCodeConsume id consumedAt =>
      updateMany (fun c => c.id == id && c.consumedAt.isNone)
        (fun c => { c with consumedAt := some consumedAt }) w
  | .auditLogCreate d => (.ok (), { w with auditLogs := w.auditLogs ++ [d] })
  | .enqueueOtpCode d => (.ok (), { w with notifications := w.notifications ++ [d] })
  | .now => (.ok w.clock, w)

def Op.fits (s : Supply) (w : World) : Op → Bool
  | otpCodeCreate _ => w.otpCodes.rows.all fun c => c.id != s.id
  | _ => true

def Op.writes : Op → Bool
  | otpCodeRetire .. | otpCodeCreate _ | otpCodeIncrementAttempts _ | otpCodeConsume ..
  | auditLogCreate _ | enqueueOtpCode _ => true
  | _ => false

def Op.fallible : Op → Bool
  | now | generateNumericCode _ | compare .. => false
  | _ => true

def Op.fault (message : String) : Op → Err
  | enqueueOtpCode _ => .plain message
  | _ => .prisma message

/-- The database, the notification queue and the clock. -/
def backend : Backend Op.Ans Err World Supply where
  effect := effect
  fits := Op.fits
  writes := Op.writes
  fallible := Op.fallible
  fault := Op.fault

/-- Time passes, and transactions change elsewhere. -/
inductive Move
  | tick (elapsed : Nat)
  | others (transactions : Table Transaction)

def drift (m : Move) (w : World) : Option World :=
  match m with
  | .tick elapsed => some { w with clock := w.clock + elapsed }
  | .others transactions => some { w with transactions := transactions }

/-! ## The service -/

structure IssueOtpInput where
  transactionId : Uuid
  purpose : OtpPurpose
  actor : TransitionActor
deriving DecidableEq

structure IssueOtpResult where
  otpId : Uuid
  code : String
  expiresAt : Int
deriving DecidableEq

structure VerifyOtpInput where
  transactionId : Uuid
  purpose : OtpPurpose
  code : String
  actor : TransitionActor
deriving DecidableEq

variable (env : Env)

/-- An audit row about a code. -/
def otpAudit (action : String) (actor : TransitionActor) (targetId : Option Uuid)
    (reason : Option String) (transactionId : Uuid) (purpose : OtpPurpose)
    (metadata : List (String × Scalar)) : AuditLog where
  actorId := truthy actor.id
  actorType := actor.type
  action := action
  targetType := "OtpCode"
  targetId := targetId.map Uuid.text
  reason := reason
  metadata :=
    [("transactionId", .str transactionId.text), ("purpose", .str purpose.text)] ++ metadata

/-- Issue a fresh code for a transaction awaiting confirmation. -/
def issue (input : IssueOtpInput) : Program IssueOtpResult := do
  match ← await (.transactionFindUnique input.transactionId) with
  | none => Prog.throw (.notFound ("Transaction " ++ input.transactionId.text ++ " not found"))
  | some tx =>
    if tx.status ≠ .confirmationPending then
      Prog.throw (.otpNotIssuable
        ("Cannot issue a confirmation code while transaction is " ++ tx.status.text))
    else do
      let retiredAt ← await .now
      let _ ← await (.otpCodeRetire input.transactionId input.purpose retiredAt)
      let code ← await (.generateNumericCode env.otpLength)
      let now ← await .now
      let expiresAt := now + env.otpTtlSeconds * 1000
      let created ← await (.otpCodeCreate
        { transactionId := input.transactionId, purpose := input.purpose,
          codeHash := env.hashCode code, expiresAt := expiresAt })
      await (.auditLogCreate (otpAudit "otp.issued" input.actor (some created.id) none
        input.transactionId input.purpose [("expiresAt", .int expiresAt)]))
      await (.enqueueOtpCode
        { transactionId := input.transactionId, otpId := created.id, code := code,
          purpose := input.purpose })
      pure { otpId := created.id, code := code, expiresAt := expiresAt }

/-- Audit a failure, whose own failure nobody waits for, and throw the generic error. -/
def fail (input : VerifyOtpInput) (reason : OtpFailureReason) (otpId : Option Uuid) :
    Program Unit := do
  (await (.auditLogCreate (otpAudit "otp.failed" input.actor otpId (some reason.text)
    input.transactionId input.purpose []))).tryCatch fun _ => pure ()
  Prog.throw (.otpVerification reason "Invalid or expired code")

/-- The submitted code is this one. -/
def matchesCode (code : String) (c : OtpCode) : Bool :=
  timingSafeEqualHex (env.hashCode code) c.codeHash

/-- Verify a submitted code against the newest unconsumed one. -/
def verify (input : VerifyOtpInput) : Program Unit := do
  match ← await (.otpCodeFindFirst input.transactionId input.purpose) with
  | none => fail input .noActiveCode none
  | some c => do
    let now ← await .now
    if c.expiresAt ≤ now then fail input .expired (some c.id)
    else if env.otpMaxAttempts ≤ c.attemptCount then fail input .locked (some c.id)
    else do
      let same ← await (.compare (env.hashCode input.code) c)
      if !same then do
        await (.otpCodeIncrementAttempts c.id)
        fail input .mismatch (some c.id)
      else do
        let consumedAt ← await .now
        let count ← await (.otpCodeConsume c.id consumedAt)
        if count ≠ 1 then fail input .noActiveCode (some c.id)
        else await (.auditLogCreate (otpAudit "otp.verified" input.actor (some c.id) none
          input.transactionId input.purpose []))

inductive Call
  | issue (input : IssueOtpInput)
  | verify (input : VerifyOtpInput)

inductive Reply
  | issued (result : IssueOtpResult)
  | verified

/-- The program of a call. -/
def code : Call → Program Reply
  | .issue input => Reply.issued <$> issue env input
  | .verify input => (fun _ => Reply.verified) <$> verify env input

/-- Any number of calls, by anyone, over one database. -/
abbrev service : Service Op.Ans Err where
  World := World
  Choice := Fate Supply
  Move := Move
  Call := Call
  Reply := Reply
  exec := backend.exec
  drift := drift
  admits := fun _ _ => true
  code := code env

/-- The configurations the service can reach from the empty world. -/
def Reachable (x : Config (service env)) : Prop :=
  Reaches Guard.free ⟨World.initial, []⟩ x

end Meduman.Otp
