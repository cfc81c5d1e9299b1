import Meduman.Model.Dialog

/-!
# The routes of transactions, disputes and evidence

A signed-in user moves a transaction on, reads it, raises a dispute or registers a file over the web; a
chat does much of it in its dialog; a merge gives what one account owns to another.

* `Web.sellerAction`, `Web.confirm`, `Web.confirmOtp`, `Web.raise`, `Web.create`, `Web.download` : the
  routes
* `Web.entrances` : the web, the chats and the merges, in any company
* `Web.isSide`, `Web.TookPart` : who sold or bought in a transaction, and who did by any account of theirs
-/

set_option autoImplicit false

namespace Meduman.Web

open Effect
open Chat (ChatInboundJobData)

/-- The world of the dialog; it has the transactions, the disputes and the evidence. -/
abbrev World := Dialog.World

/-! ## Requests -/

/-- What the token of a signed-in user says. -/
structure SupabaseJwtClaims where
  sub : Uuid
  appRole : Option String := none

structure RaiseDisputeDto where
  reason : DisputeReason
  description : Option String := none
  desiredOutcome : Option DisputeOutcome := none

def RaiseDisputeDto.isValid (dto : RaiseDisputeDto) : Bool :=
  dto.description.all fun description => description.length ≤ 2000

structure CreateEvidenceDto where
  filename : String
  mimeType : String
  sizeBytes : Int
  disputeId : Option Uuid := none

/-- `ALLOWED_EVIDENCE_MIME` -/
def allowedEvidenceMime : List String := ["image/png", "image/jpeg", "image/webp", "application/pdf"]

/-- `MAX_EVIDENCE_BYTES` -/
def maxEvidenceBytes : Int := 10 * 1024 * 1024

def CreateEvidenceDto.isValid (dto : CreateEvidenceDto) : Bool :=
  dto.filename.length ≤ 200 && allowedEvidenceMime.contains dto.mimeType &&
    1 ≤ dto.sizeBytes && dto.sizeBytes ≤ maxEvidenceBytes

structure VerifyOtpDto where
  code : String

/-- `/^[+-]?([0-9]*[.])?[0-9]+$/` -/
def isNumberString (s : String) : Bool :=
  let unsigned := match s.toList with
    | '+' :: l | '-' :: l => l
    | l => l
  match unsigned.dropWhile Char.isDigit with
  | [] => !unsigned.isEmpty
  | '.' :: l => !l.isEmpty && l.all Char.isDigit
  | _ => false

def VerifyOtpDto.isValid (dto : VerifyOtpDto) : Bool :=
  isNumberString dto.code && 4 ≤ dto.code.length && dto.code.length ≤ 10

/-! ## Operations -/

structure EvidenceCreate where
  transactionId : Uuid
  disputeId : Option Uuid
  uploadedBy : Uuid
  storagePath : String
  mimeType : String
  sizeBytes : Int

def EvidenceCreate.row (d : EvidenceCreate) (id : Uuid) : Linking.Evidence where
  id := id
  transactionId := d.transactionId
  disputeId := d.disputeId
  uploadedBy := d.uploadedBy
  storagePath := d.storagePath
  mimeType := d.mimeType
  sizeBytes := d.sizeBytes

/-- What everybody may know of a payout. -/
structure PayoutView where
  id : Uuid
  amount : Int
  currency : String
  status : PayoutStatus
  attemptCount : Nat
deriving DecidableEq

def Payout.view (p : Payout) : PayoutView := ⟨p.id, p.amount, p.currency, p.status, p.attemptCount⟩

/-- What the controllers await themselves; evidence comes with the sides of its transaction. -/
inductive WebOp
  | createUploadUrl (path : String)
  | evidenceCreate (data : EvidenceCreate)
  | evidenceFindUnique (id : Uuid)
  | createDownloadUrl (path : String)
  | timelineFindMany (transactionId : Uuid)
  | disputeFindMany (transactionId : Uuid)
  | payoutFindMany (transactionId : Uuid)

@[reducible] def WebOp.Ans : WebOp → Type
  | createUploadUrl _ => String
  | evidenceCreate _ => Linking.Evidence
  | evidenceFindUnique _ => Option (Linking.Evidence × Uuid × Option Uuid)
  | createDownloadUrl _ => String
  | timelineFindMany _ => List TimelineEvent
  | disputeFindMany _ => List Dispute
  | payoutFindMany _ => List Payout

inductive Op
  | dialog (op : Dialog.Op)
  | web (op : WebOp)

@[reducible] def Op.Ans : Op → Type
  | dialog op => op.Ans
  | web op => op.Ans

inductive Err
  | dialog (e : Dialog.Err)
  | forbidden (message : String)
  | notFound (message : String)
  | internal (message : String)
  | prisma (code message : String)

abbrev Program := Prog Op.Ans Err

/-- What the environment makes up: an identifier, a signed address. -/
structure Supply where
  id : Uuid
  url : String := ""

/-- The dispute is stored. -/
def hasDispute (w : World) (id : Uuid) : Bool := w.core.disputes.rows.any fun d => d.id == id

/-- What a served operation answers, and the world it leaves; a dispute that is referred to must exist. -/
def effect (s : Supply) (w : World) : (op : WebOp) → Except Err op.Ans × World
  | .createUploadUrl _ => (.ok s.url, w)
  | .evidenceCreate d =>
      if d.disputeId.all (hasDispute w) then
        match w.accounts.evidence.create (d.row s.id) with
        | none => (.error (.prisma "P2002" "Unique constraint failed"), w)
        | some evidence =>
            (.ok (d.row s.id), { w with accounts := { w.accounts with evidence := evidence } })
      else (.error (.prisma "P2003" "Foreign key constraint failed"), w)
  | .evidenceFindUnique id =>
      match w.accounts.evidence.find fun e => e.id == id with
      | none => (.ok none, w)
      | some e =>
          match w.core.transactions.find fun t => t.id == e.transactionId with
          | none => (.error (.prisma "P2000" "Field transaction is required to return data"), w)
          | some t => (.ok (some (e, t.sellerId, t.buyerId)), w)
  | .createDownloadUrl _ => (.ok s.url, w)
  | .timelineFindMany id => (.ok (w.core.timeline.filter fun e => e.transactionId == id), w)
  | .disputeFindMany id => (.ok (w.core.disputes.rows.reverse.filter fun d => d.transactionId == id), w)
  | .payoutFindMany id => (.ok (w.core.payouts.rows.reverse.filter fun p => p.transactionId == id), w)

def WebOp.fits (s : Supply) (w : World) : WebOp → Bool
  | evidenceCreate _ => w.accounts.evidence.rows.all fun e => e.id != s.id
  | _ => true

def WebOp.writes : WebOp → Bool
  | evidenceCreate _ => true
  | _ => false

def WebOp.fault (message : String) : WebOp → Err
  | createUploadUrl _ => .internal ("Could not sign upload URL: " ++ message)
  | createDownloadUrl _ => .internal ("Could not sign download URL: " ++ message)
  | _ => .prisma "P1001" message

/-- The database and the file storage. -/
def backend : Backend WebOp.Ans Err World Supply where
  effect := effect
  fits := WebOp.fits
  writes := WebOp.writes
  fallible := fun _ => true
  fault := WebOp.fault

/-- The outcome of an operation, by whose it is. -/
inductive Choice
  | dialog (c : Dialog.Choice)
  | web (f : Fate Supply)

def exec (op : Op) (choice : Choice) (w : World) : Option (Except Err op.Ans × World) :=
  match op, choice with
  | .dialog op, .dialog c => (Dialog.exec op c w).map fun r => (r.1.mapError Err.dialog, r.2)
  | .web op, .web f => backend.exec op f w
  | _, _ => none

def dialogEmbedding : Embedding Dialog.Op.Ans Dialog.Err Op.Ans Err where
  op := .dialog
  err := .dialog
  back _ := Except.mapError fun
    | .dialog e => e
    | _ => .plain ""

/-- What the services of the dialog do. -/
abbrev dialog {α : Type} (p : Dialog.Program α) : Program α := p.embed dialogEmbedding

abbrev await (op : WebOp) : Program op.Ans := Prog.perform (Op.web op)

/-! ## Who may -/

/-- The user of the token sells or buys. -/
def isParticipant (sellerId : Uuid) (buyerId : Option Uuid) (claims : SupabaseJwtClaims) : Bool :=
  sellerId == claims.sub || buyerId == some claims.sub

def isAdmin (claims : SupabaseJwtClaims) : Bool := claims.appRole == some "ADMIN"

def assertParticipant (sellerId : Uuid) (buyerId : Option Uuid) (claims : SupabaseJwtClaims) :
    Program Unit :=
  if !isParticipant sellerId buyerId claims && !isAdmin claims then
    Prog.throw (.forbidden "Not a participant of this transaction")
  else pure ()

/-- Load a transaction. -/
def getById (id : Uuid) : Program Transaction := dialog (Dialog.core (Meduman.getById id))

/-! ## Transactions -/

/-- Load a transaction for one of its sides, or for an administrator. -/
def get (claims : SupabaseJwtClaims) (id : Uuid) : Program Transaction := do
  let tx ← getById id
  assertParticipant tx.sellerId tx.buyerId claims
  pure tx

/-- What is read of a transaction that exists. -/
def getFor {α : Type} (claims : SupabaseJwtClaims) (id : Uuid) (read : Program α) : Program α := do
  let _ ← get claims id
  let _ ← getById id
  read

def timeline (claims : SupabaseJwtClaims) (id : Uuid) : Program (List TimelineEvent) :=
  getFor claims id (await (.timelineFindMany id))

def disputes (claims : SupabaseJwtClaims) (id : Uuid) : Program (List Dispute) :=
  getFor claims id (await (.disputeFindMany id))

def payouts (claims : SupabaseJwtClaims) (id : Uuid) : Program (List PayoutView) :=
  getFor claims id (List.map Payout.view <$> await (.payoutFindMany id))

/-- The event of a seller. -/
def sellerEvent (claims : SupabaseJwtClaims) (id : Uuid) (event : TransactionEvent) :
    ApplyTransitionInput where
  transactionId := id
  event := event
  actor := { id := some claims.sub.text, type := .user, role := some "SELLER" }

/-- Load, assert the seller, then drive the event. -/
def sellerAction (claims : SupabaseJwtClaims) (id : Uuid) (event : TransactionEvent) :
    Program Transaction := do
  let tx ← getById id
  if tx.sellerId ≠ claims.sub then
    Prog.throw (.forbidden "Only the seller can perform this action")
  else dialog (Dialog.core (apply (sellerEvent claims id event)))

def publish (claims : SupabaseJwtClaims) (id : Uuid) : Program Transaction :=
  sellerAction claims id .sellerPublish

def startDelivery (claims : SupabaseJwtClaims) (id : Uuid) : Program Transaction :=
  sellerAction claims id .sellerStartDelivery

def markDelivered (claims : SupabaseJwtClaims) (id : Uuid) : Program Transaction :=
  sellerAction claims id .sellerMarkDelivered

def cancel (claims : SupabaseJwtClaims) (id : Uuid) : Program Transaction :=
  sellerAction claims id .cancel

/-- The buyer confirms, and the release is enqueued. -/
def confirm (claims : SupabaseJwtClaims) (id : Uuid) : Program Transaction :=
  dialog (Dialog.core (Meduman.confirm id claims.sub none))

/-! ## One-time codes -/

section Otp

variable (env : Otp.Env)

/-- A code for the buyer, who is told its id and its expiry only. -/
def requestOtp (claims : SupabaseJwtClaims) (id : Uuid) : Program (Uuid × Int) := do
  let tx ← getById id
  if tx.buyerId ≠ some claims.sub then
    Prog.throw (.forbidden "Only the buyer can request a confirmation code")
  else do
    let issued ← dialog (Dialog.otp (Otp.issue env
      { transactionId := id, purpose := .deliveryConfirmation
        actor := { id := some claims.sub.text, type := .user, role := some "BUYER" } }))
    pure (issued.otpId, issued.expiresAt)

/-- The buyer confirms with a code. -/
def confirmOtp (claims : SupabaseJwtClaims) (id : Uuid) (dto : VerifyOtpDto) : Program Transaction := do
  let tx ← getById id
  if tx.buyerId ≠ some claims.sub then
    Prog.throw (.forbidden "Only the buyer can confirm this transaction")
  else do
    dialog (Dialog.otp (Otp.verify env
      { transactionId := id, purpose := .deliveryConfirmation, code := dto.code
        actor := { id := some claims.sub.text, type := .user, role := some "BUYER" } }))
    let updated ← dialog (Dialog.core (apply
      (confirmation id claims.sub (some "buyer confirmed via OTP"))))
    dialog (Dialog.core (Meduman.await (.enqueueRelease id)))
    pure updated

end Otp

/-! ## Disputes -/

/-- The complaint of a signed-in user. -/
def RaiseDisputeDto.input (dto : RaiseDisputeDto) (claims : SupabaseJwtClaims)
    (transactionId : Uuid) : RaiseDisputeInput where
  transactionId := transactionId
  openedBy := claims.sub
  role := some (claims.appRole.getD "BUYER")
  reason := dto.reason
  description := truthy dto.description
  desiredOutcome := dto.desiredOutcome

def raise (claims : SupabaseJwtClaims) (transactionId : Uuid) (dto : RaiseDisputeDto) :
    Program Dispute :=
  dialog (Dialog.core (Meduman.raise (dto.input claims transactionId)))

/-! ## Evidence -/

/-- Where a file is put; the client does not choose it. -/
def buildEvidencePath (transactionId uuid : Uuid) (filename : String) : String :=
  "evidence/" ++ transactionId.text ++ "/" ++ uuid.text ++ "-" ++ Dialog.safeFilename filename

/-- Register a file, and say where to upload it. -/
def create (claims : SupabaseJwtClaims) (id : Uuid) (dto : CreateEvidenceDto) :
    Program (Uuid × String) := do
  let tx ← getById id
  assertParticipant tx.sellerId tx.buyerId claims
  let uuid ← dialog (Dialog.core (Meduman.await .randomUUID))
  let path := buildEvidencePath id uuid dto.filename
  let upload ← await (.createUploadUrl path)
  let evidence ← await (.evidenceCreate
    { transactionId := id, uploadedBy := claims.sub, storagePath := path, mimeType := dto.mimeType,
      sizeBytes := dto.sizeBytes, disputeId := dto.disputeId })
  pure (evidence.id, upload)

/-- Where a file can be read, for the sides of its transaction and for administrators. -/
def download (claims : SupabaseJwtClaims) (evidenceId : Uuid) : Program String := do
  match ← await (.evidenceFindUnique evidenceId) with
  | none => Prog.throw (.notFound "Evidence not found")
  | some (ev, sellerId, buyerId) => do
      assertParticipant sellerId buyerId claims
      await (.createDownloadUrl ev.storagePath)

/-! ## The service -/

/-- A request of the web, one attempt of a chat message, or a call of the account linking. -/
inductive Call
  | get (claims : SupabaseJwtClaims) (id : Uuid)
  | timeline (claims : SupabaseJwtClaims) (id : Uuid)
  | disputes (claims : SupabaseJwtClaims) (id : Uuid)
  | payouts (claims : SupabaseJwtClaims) (id : Uuid)
  | publish (claims : SupabaseJwtClaims) (id : Uuid)
  | startDelivery (claims : SupabaseJwtClaims) (id : Uuid)
  | markDelivered (claims : SupabaseJwtClaims) (id : Uuid)
  | cancel (claims : SupabaseJwtClaims) (id : Uuid)
  | confirm (claims : SupabaseJwtClaims) (id : Uuid)
  | requestOtp (claims : SupabaseJwtClaims) (id : Uuid)
  | confirmOtp (claims : SupabaseJwtClaims) (id : Uuid) (dto : VerifyOtpDto)
  | raise (claims : SupabaseJwtClaims) (transactionId : Uuid) (dto : RaiseDisputeDto)
  | create (claims : SupabaseJwtClaims) (id : Uuid) (dto : CreateEvidenceDto)
  | download (claims : SupabaseJwtClaims) (evidenceId : Uuid)
  | message (data : ChatInboundJobData)
  | link (call : Linking.Call)

inductive Reply
  | transaction (tx : Transaction)
  | timeline (events : List TimelineEvent)
  | disputes (disputes : List Dispute)
  | payouts (payouts : List PayoutView)
  | issued (otpId : Uuid) (expiresAt : Int)
  | raised (dispute : Dispute)
  | created (evidenceId : Uuid) (upload : String)
  | url (signed : String)
  | processed
  | linked (reply : Linking.Reply)

/-- What the validation of the requests lets through. -/
def admits (c : Call) (w : World) : Bool :=
  match c with
  | .confirmOtp _ _ dto => dto.isValid
  | .raise _ _ dto => dto.isValid
  | .create _ _ dto => dto.isValid
  | .link call => Linking.admits call w.linking
  | _ => true

variable (env : Dialog.Env)

/-- The program of a call. -/
def code : Call → Program Reply
  | .get claims id => Reply.transaction <$> get claims id
  | .timeline claims id => Reply.timeline <$> timeline claims id
  | .disputes claims id => Reply.disputes <$> disputes claims id
  | .payouts claims id => Reply.payouts <$> payouts claims id
  | .publish claims id => Reply.transaction <$> publish claims id
  | .startDelivery claims id => Reply.transaction <$> startDelivery claims id
  | .markDelivered claims id => Reply.transaction <$> markDelivered claims id
  | .cancel claims id => Reply.transaction <$> cancel claims id
  | .confirm claims id => Reply.transaction <$> confirm claims id
  | .requestOtp claims id => (fun r => Reply.issued r.1 r.2) <$> requestOtp env.otp claims id
  | .confirmOtp claims id dto => Reply.transaction <$> confirmOtp env.otp claims id dto
  | .raise claims transactionId dto => Reply.raised <$> raise claims transactionId dto
  | .create claims id dto => (fun r => Reply.created r.1 r.2) <$> create claims id dto
  | .download claims evidenceId => Reply.url <$> download claims evidenceId
  | .message data => (fun _ => Reply.processed) <$> dialog (Dialog.processInbound env data)
  | .link call => Reply.linked <$> dialog (Dialog.linking (Linking.code env.linking call))

/-! ## Sides -/

/-- The sides of a transaction. -/
inductive Side
  | seller | buyer | either
deriving DecidableEq

/-- The user is on this side. -/
def Side.holds (side : Side) (t : Transaction) (userId : Uuid) : Bool :=
  match side with
  | seller => t.sellerId == userId
  | buyer => t.buyerId == some userId
  | either => t.sellerId == userId || t.buyerId == some userId

/-- The side a line of the timeline is made by. -/
def sideOf (type : String) : Option Side :=
  if type = timelineType .sellerStartDelivery ∨ type = timelineType .sellerMarkDelivered then
    some .seller
  else if type = timelineType .buyerConfirm then some .buyer
  else if type = timelineType .raiseDispute then some .either
  else none

/-- The line is one that a side makes. -/
def isSided (e : TimelineEvent) : Bool := (sideOf e.type).isSome

/-- The user is on this side of the transaction. -/
def isSide (side : Side) (w : World) (transactionId userId : Uuid) : Bool :=
  w.core.transactions.rows.any fun t => t.id == transactionId && side.holds t userId

/-! ## The rest of the system -/

/-- What no other service changes: whose dispute it is and on what, the lines that a side makes, the
evidence, whose chats there are, and who was merged into whom. -/
structure Preserves (u w : World) : Prop where
  disputes : w.core.disputes.rows.map (fun d => (d.id, d.transactionId, d.openedBy)) =
    u.core.disputes.rows.map fun d => (d.id, d.transactionId, d.openedBy)
  timeline : w.core.timeline.filter isSided = u.core.timeline.filter isSided
  evidence : w.accounts.evidence.rows = u.accounts.evidence.rows
  chatIdentities : w.accounts.chatIdentities.rows = u.accounts.chatIdentities.rows
  merges : (w.accounts.users.rows.map fun r => (r.id, r.mergedIntoUserId)).filter (·.2.isSome) =
    (u.accounts.users.rows.map fun r => (r.id, r.mergedIntoUserId)).filter (·.2.isSome)

instance (u w : World) : Decidable (Preserves u w) :=
  decidable_of_iff
    ((w.core.disputes.rows.map (fun d => (d.id, d.transactionId, d.openedBy)) =
        u.core.disputes.rows.map fun d => (d.id, d.transactionId, d.openedBy)) ∧
      (w.core.timeline.filter isSided = u.core.timeline.filter isSided) ∧
      (w.accounts.evidence.rows = u.accounts.evidence.rows) ∧
      (w.accounts.chatIdentities.rows = u.accounts.chatIdentities.rows) ∧
      ((w.accounts.users.rows.map fun r => (r.id, r.mergedIntoUserId)).filter (·.2.isSome) =
        (u.accounts.users.rows.map fun r => (r.id, r.mergedIntoUserId)).filter (·.2.isSome)))
    ⟨fun h => ⟨h.1, h.2.1, h.2.2.1, h.2.2.2.1, h.2.2.2.2⟩,
      fun h => ⟨h.disputes, h.timeline, h.evidence, h.chatIdentities, h.merges⟩⟩

/-- What the rest of the system leaves: it sells, takes payments, moves transactions on, resolves disputes. -/
structure Move where
  core : Meduman.World
  accounts : Linking.World
  otp : Otp.World
  gateway : Chat.World

def drift (m : Move) (w : World) : Option World :=
  let w' := { w with core := m.core, accounts := m.accounts, otp := m.otp, gateway := m.gateway }
  if Preserves w w' then some w' else none

/-- The web, the chats and the merges. -/
abbrev entrances : Service Op.Ans Err where
  World := World
  Choice := Choice
  Move := Move
  Call := Call
  Reply := Reply
  exec := exec
  drift := drift
  admits := admits
  code := code env

/-! ## Participants -/

/-- The one account was merged into the other, in one of the worlds. -/
def Joined (past : List World) (a b : Uuid) : Prop :=
  ∃ w ∈ past, ∃ r ∈ w.accounts.users, r.id = a ∧ r.mergedIntoUserId = some b

/-- The accounts are one user's: a merge joined them, or several did. -/
def SameUser (past : List World) : Uuid → Uuid → Prop := Relation.EqvGen (Joined past)

/-- The user was on this side of the transaction, in one of the worlds. -/
def Held (past : List World) (side : Side) (transactionId userId : Uuid) : Prop :=
  ∃ w ∈ past, isSide side w transactionId userId = true

/-- The user sold or bought in the transaction, by one of their accounts. -/
def TookPart (past : List World) (transactionId userId : Uuid) : Prop :=
  ∃ v, Held past .either transactionId v ∧ SameUser past v userId

end Meduman.Web
