import Mathlib.Algebra.Group.Nat.Defs
import Meduman.Effect.Embed
import Meduman.Model.Chat
import Meduman.Model.Linking
import Meduman.Model.Otp
import Meduman.Model.Releases
import Meduman.Model.Sellers

/-!
# The chat dialog

The worker takes one inbound message at a time through the dialog of its chat: the identity of the
sender, the session of the identity, the step the session is at, the reply.

* `Dialog.World`, `Dialog.Op` : everything a message can reach, and the operations that reach it
* `Dialog.getOrCreate`, `Dialog.updateSession` : the sessions
* `Dialog.handle` : the step machine
* `Dialog.processInbound` : one attempt of a message's job
* `Dialog.worker` : ingestion and attempts, in any company
-/

set_option autoImplicit false

namespace Meduman.Dialog

open Effect
open Chat (ChatPlatform ChatAdapter InboundMedia InboundChatMessage ChatInboundJobData IngestInput
  ChatWebhookResult)
open Linking (ChatIdentity ConsumeOutcome isSpace)

/-! ## Sessions -/

inductive ChatStep
  | idle | sellerTxTitle | sellerTxAmount | sellerTxDescription | sellerPayoutAccount
  | buyerAwaitOtp | disputeEvidence
deriving DecidableEq, Repr

/-- What a conversation has gathered so far. -/
structure ChatDraft extends Meduman.ChatDraft where
  disputeId : Option Uuid := none
deriving DecidableEq

/-- The conversational state of one chat identity. -/
structure ChatSession where
  chatIdentityId : Uuid
  step : ChatStep
  draft : Option ChatDraft
  transactionId : Option Uuid
  expiresAt : Int
deriving DecidableEq

instance : Constrained ChatSession where
  clash a b := a.chatIdentityId == b.chatIdentityId
  clash_comm _ _ := Bool.beq_comm

/-- An absent field keeps its value. -/
structure SessionPatch where
  step : Option ChatStep := none
  draft : Option (Option ChatDraft) := none
  transactionId : Option (Option Uuid) := none

def SessionPatch.apply (d : SessionPatch) (expiresAt : Int) (s : ChatSession) : ChatSession :=
  { s with
    step := d.step.getD s.step
    draft := d.draft.getD s.draft
    transactionId := d.transactionId.getD s.transactionId
    expiresAt := expiresAt }

/-! ## The world -/

/-- The core's tables, those the core does not have, the one-time codes, what the gateway recorded, the
sessions, and the stored files. -/
structure World where
  core : Meduman.World
  accounts : Linking.World
  otp : Otp.World
  gateway : Chat.World
  sessions : Table ChatSession
  objects : List String

def World.initial : World := ⟨.initial, .initial, .initial, .initial, .empty, []⟩

/-- The core's view of the users. -/
def coreUsers (users : Table Linking.User) : Table Meduman.User :=
  users.map (fun u => { id := u.id, roleFlags := u.roleFlags }) fun _ _ h => by
    simp only [Constrained.clash] at h ⊢
    simp [h]

/-- The users with the role flags the core has. -/
def withRoleFlags (core : Table Meduman.User) (users : Table Linking.User) : Table Linking.User :=
  users.map (fun u => { u with
    roleFlags := ((core.find fun c => c.id == u.id).map Meduman.User.roleFlags).getD u.roleFlags })
    fun _ _ h => h

/-- The core's invoices, with the buyers the core does not know. -/
def withBuyers (known : Table Linking.Invoice) (invoices : Table Invoice) : Table Linking.Invoice :=
  invoices.map (fun i =>
    { toInvoice := i
      buyerId := (known.find fun k => k.id == i.id).bind Linking.Invoice.buyerId }) fun _ _ h => h

/-- What the linking service sees of the world. -/
def World.linking (w : World) : Linking.World :=
  { w.accounts with
    clock := w.core.clock
    users := withRoleFlags w.core.users w.accounts.users
    sellerProfiles := w.core.sellerProfiles
    transactions := w.core.transactions
    payouts := w.core.payouts
    invoices := withBuyers w.accounts.invoices w.core.invoices
    disputes := w.core.disputes }

/-- The world after the linking service changed what it sees. -/
def World.putLinking (l : Linking.World) (w : World) : World :=
  { w with
    accounts := l
    core := { w.core with
      users := coreUsers l.users
      sellerProfiles := l.sellerProfiles
      transactions := l.transactions
      payouts := l.payouts
      invoices := l.invoices.map Linking.Invoice.toInvoice fun _ _ h => h
      disputes := l.disputes } }

/-- What the one-time codes see of the world. -/
def World.codes (w : World) : Otp.World :=
  { w.otp with clock := w.core.clock, transactions := w.core.transactions }

/-- What the onboarding of sellers sees of the world. -/
def World.sellers (w : World) : Sellers.World where
  users := w.accounts.users.map (fun u => ⟨u.id, u.merchantId⟩) fun _ _ h => by
    simp only [Constrained.clash] at h ⊢
    simp [h]
  sellerProfiles := w.core.sellerProfiles
  auditLogs := w.core.auditLogs

/-- The world after the onboarding left this. -/
def World.putSellers (s : Sellers.World) (w : World) : World :=
  { w with core := { w.core with sellerProfiles := s.sellerProfiles, auditLogs := s.auditLogs } }

/-! ## Operations -/

structure EvidenceCreate where
  transactionId : Uuid
  disputeId : Uuid
  uploadedBy : Uuid
  storagePath : String
  mimeType : String
  sizeBytes : Int

def EvidenceCreate.row (d : EvidenceCreate) (id : Uuid) : Linking.Evidence where
  id := id
  transactionId := d.transactionId
  disputeId := some d.disputeId
  uploadedBy := d.uploadedBy
  storagePath := d.storagePath
  mimeType := d.mimeType
  sizeBytes := d.sizeBytes

structure DownloadedMedia where
  size : Int
  mimeType : String

/-- What the dialog awaits itself. `userEmail` is part of the lookup of an identity. -/
inductive ChatOp
  | userEmail (id : Uuid)
  | chatSessionFindUnique (chatIdentityId : Uuid)
  | chatSessionUpsert (chatIdentityId : Uuid) (expiresAt : Int)
  | chatSessionUpdate (chatIdentityId : Uuid) (patch : SessionPatch) (expiresAt : Int)
  | transactionFindFirst (buyerId : Uuid) (status : TransactionStatus)
  | disputeFindFirst (transactionId : Uuid) (statuses : List DisputeStatus)
  | downloadMedia (media : InboundMedia)
  | uploadFile (path : String)
  | evidenceCreate (data : EvidenceCreate)
  | send (platform : ChatPlatform) (recipient text : String)

@[reducible] def ChatOp.Ans : ChatOp → Type
  | userEmail _ => String
  | chatSessionFindUnique _ => Option ChatSession
  | chatSessionUpsert .. => ChatSession
  | chatSessionUpdate .. => ChatSession
  | transactionFindFirst .. => Option Transaction
  | disputeFindFirst .. => Option Dispute
  | downloadMedia _ => DownloadedMedia
  | uploadFile _ => Unit
  | evidenceCreate _ => Linking.Evidence
  | send .. => Unit

inductive Op
  | core (op : Meduman.Op)
  | linking (op : Linking.Op)
  | otp (op : Otp.Op)
  | gateway (op : Chat.Op)
  | sellers (op : Sellers.Op)
  | chat (op : ChatOp)

@[reducible] def Op.Ans : Op → Type
  | core op => op.Ans
  | linking op => op.Ans
  | otp op => op.Ans
  | gateway op => op.Ans
  | sellers op => op.Ans
  | chat op => op.Ans

inductive Err
  | core (e : Meduman.Err)
  | linking (e : Linking.Err)
  | otp (e : Otp.Err)
  | gateway (e : Chat.Err)
  | sellers (e : Sellers.Err)
  | unsupportedMedia (mimeType : String)
  | prisma (code message : String)
  | plain (message : String)

abbrev Program := Prog Op.Ans Err

/-- What the environment makes up: an identifier, one of several rows, what a provider answers. -/
structure Supply where
  id : Uuid
  pick : Nat := 0
  text : String := ""
  size : Int := 0

/-- Set a session to its beginning. -/
def freshSession (chatIdentityId : Uuid) (expiresAt : Int) : ChatSession :=
  ⟨chatIdentityId, .idle, none, none, expiresAt⟩

/-- `chatSession.upsert` -/
def upsertSession (id : Uuid) (expiresAt : Int) (w : World) : Except Err ChatSession × World :=
  let written := match w.sessions.find fun s => s.chatIdentityId == id with
    | none => w.sessions.create (freshSession id expiresAt)
    | some _ => w.sessions.update (fun s => s.chatIdentityId == id) fun s =>
        freshSession s.chatIdentityId expiresAt
  match written with
  | none => (.error (.prisma "P2002" "Unique constraint failed"), w)
  | some sessions => (.ok (freshSession id expiresAt), { w with sessions := sessions })

/-- `chatSession.update` -/
def updateSessionRow (id : Uuid) (patch : SessionPatch) (expiresAt : Int) (w : World) :
    Except Err ChatSession × World :=
  match w.sessions.find fun s => s.chatIdentityId == id with
  | none => (.error (.prisma "P2025" "Record to update not found"), w)
  | some s =>
      match w.sessions.update (fun s => s.chatIdentityId == id) (patch.apply expiresAt) with
      | none => (.error (.prisma "P2002" "Unique constraint failed"), w)
      | some sessions => (.ok (patch.apply expiresAt s), { w with sessions := sessions })

/-- What a served operation of the dialog answers, and the world it leaves. -/
def effect (s : Supply) (w : World) : (op : ChatOp) → Except Err op.Ans × World
  | .userEmail id => (.ok ((w.accounts.users.find fun u => u.id == id).elim "" Linking.User.email), w)
  | .chatSessionFindUnique id => (.ok (w.sessions.find fun s => s.chatIdentityId == id), w)
  | .chatSessionUpsert id expiresAt => upsertSession id expiresAt w
  | .chatSessionUpdate id patch expiresAt => updateSessionRow id patch expiresAt w
  | .transactionFindFirst buyerId status =>
      let found := w.core.transactions.filter fun t => t.buyerId == some buyerId && t.status == status
      (.ok (found[s.pick]?.or found[0]?), w)
  | .disputeFindFirst transactionId statuses =>
      (.ok (w.core.disputes.findNewest fun d =>
        d.transactionId == transactionId && statuses.contains d.status), w)
  | .downloadMedia media => (.ok ⟨s.size, media.mimeType.getD s.text⟩, w)
  | .uploadFile path => (.ok (), { w with objects := w.objects ++ [path] })
  | .evidenceCreate d =>
      match w.accounts.evidence.create (d.row s.id) with
      | none => (.error (.prisma "P2002" "Unique constraint failed"), w)
      | some evidence => (.ok (d.row s.id), { w with accounts := { w.accounts with evidence := evidence } })
  | .send .. => (.ok (), w)

def ChatOp.fits (s : Supply) (w : World) : ChatOp → Bool
  | evidenceCreate _ => w.accounts.evidence.rows.all fun e => e.id != s.id
  | _ => true

def ChatOp.writes : ChatOp → Bool
  | chatSessionUpsert .. | chatSessionUpdate .. | uploadFile _ | evidenceCreate _ | send .. => true
  | _ => false

def ChatOp.fallible : ChatOp → Bool
  | userEmail _ => false
  | _ => true

def ChatOp.fault (message : String) : ChatOp → Err
  | downloadMedia _ | uploadFile _ | send .. => .plain message
  | _ => .prisma "P1001" message

/-- The database, the platforms and the file storage. -/
def backend : Backend ChatOp.Ans Err World Supply where
  effect := effect
  fits := ChatOp.fits
  writes := ChatOp.writes
  fallible := ChatOp.fallible
  fault := ChatOp.fault

/-- The outcome of an operation, by whose it is. -/
inductive Choice
  | core (o : Outcome)
  | linking (f : Fate Linking.Supply)
  | otp (f : Fate Otp.Supply)
  | gateway (f : Fate Uuid)
  | sellers (f : Fate String)
  | chat (f : Fate Supply)

/-- The operation is carried out, and it is one that writes. -/
def carriesOut {O S : Type} (writes : O → Bool) (op : O) (f : Fate S) : Bool :=
  writes op && f.supply.isSome

/-- A read by another service leaves the world as it is, what that service has copies of too. -/
def exec (op : Op) (choice : Choice) (w : World) : Option (Except Err op.Ans × World) :=
  match op, choice with
  | .core op, .core o =>
      (Meduman.exec op o w.core).map fun r => (r.1.mapError Err.core, { w with core := r.2 })
  | .linking op, .linking f =>
      (Linking.backend.exec op f w.linking).map fun r => (r.1.mapError Err.linking,
        if carriesOut Linking.Op.writes op f then w.putLinking r.2 else w)
  | .otp op, .otp f =>
      (Otp.backend.exec op f w.codes).map fun r => (r.1.mapError Err.otp,
        if carriesOut Otp.Op.writes op f then { w with otp := r.2 } else w)
  | .gateway op, .gateway f =>
      (Chat.backend.exec op f w.gateway).map fun r =>
        (r.1.mapError Err.gateway, { w with gateway := r.2 })
  | .sellers op, .sellers f =>
      (Sellers.backend.exec op f w.sellers).map fun r => (r.1.mapError Err.sellers, w.putSellers r.2)
  | .chat op, .chat f => backend.exec op f w
  | _, _ => none

/-! ## What other services do -/

/-- An answer without the errors of other services. -/
def back {α E : Type} (inner : Err → E) : Except Err α → Except E α := Except.mapError inner

def coreEmbedding : Embedding Meduman.Op.Ans Meduman.Err Op.Ans Err where
  op := .core
  err := .core
  back _ := back fun
    | .core e => e
    | _ => .plain ""

def linkingEmbedding : Embedding Linking.Op.Ans Linking.Err Op.Ans Err where
  op := .linking
  err := .linking
  back _ := back fun
    | .linking e => e
    | _ => .internal ""

def otpEmbedding : Embedding Otp.Op.Ans Otp.Err Op.Ans Err where
  op := .otp
  err := .otp
  back _ := back fun
    | .otp e => e
    | _ => .plain ""

def gatewayEmbedding : Embedding Chat.Op.Ans Chat.Err Op.Ans Err where
  op := .gateway
  err := .gateway
  back _ := back fun
    | .gateway e => e
    | _ => .plain ""

def sellersEmbedding : Embedding Sellers.Op.Ans Sellers.Err Op.Ans Err where
  op := .sellers
  err := .sellers
  back _ := back fun
    | .sellers e => e
    | _ => .notFound ""

abbrev core {α : Type} (p : Meduman.Program α) : Program α := p.embed coreEmbedding

abbrev linking {α : Type} (p : Linking.Program α) : Program α := p.embed linkingEmbedding

abbrev otp {α : Type} (p : Otp.Program α) : Program α := p.embed otpEmbedding

abbrev gateway {α : Type} (p : Chat.Program α) : Program α := p.embed gatewayEmbedding

abbrev sellers {α : Type} (p : Sellers.Program α) : Program α := p.embed sellersEmbedding

abbrev await (op : ChatOp) : Program op.Ans := Prog.perform (Op.chat op)

/-- The settings. -/
structure Env where
  gateway : Chat.Env
  linking : Linking.Env
  otp : Otp.Env
  chatSessionTtlSeconds : Int

variable (env : Env)

/-! ## Sessions -/

def freshExpiry : Program Int := do
  let now ← core (Meduman.await .now)
  pure (now + env.chatSessionTtlSeconds * 1000)

/-- Load the session of an identity; a new one if there is none or it has expired. -/
def getOrCreate (chatIdentityId : Uuid) : Program ChatSession := do
  let create : Program ChatSession := do
    let expiresAt ← freshExpiry env
    await (.chatSessionUpsert chatIdentityId expiresAt)
  match ← await (.chatSessionFindUnique chatIdentityId) with
  | none => create
  | some existing => do
      let now ← core (Meduman.await .now)
      if now < existing.expiresAt then pure existing else create

/-- Apply a patch and bump the expiry. -/
def updateSession (chatIdentityId : Uuid) (patch : SessionPatch) : Program Unit := do
  let expiresAt ← freshExpiry env
  let _ ← await (.chatSessionUpdate chatIdentityId patch expiresAt)
  pure ()

/-- Return to the resting step and clear the draft and the active transaction. -/
def resetSession (chatIdentityId : Uuid) : Program Unit :=
  updateSession env chatIdentityId
    { step := some .idle, draft := some none, transactionId := some none }

def readDraft (session : ChatSession) : ChatDraft := session.draft.getD {}

/-! ## Texts -/

/-- `trim()` -/
def trim (s : String) : String :=
  String.ofList (((s.toList.dropWhile isSpace).reverse.dropWhile isSpace).reverse)

/-- The parts between white space, `c` characters of the first one collected. -/
def wordsAux : List Char → List Char → List String
  | [], [] => []
  | [], word => [String.ofList word.reverse]
  | c :: l, word =>
      if isSpace c then (if word.isEmpty then [] else [String.ofList word.reverse]) ++ wordsAux l []
      else wordsAux l (c :: word)

/-- `split(/\s+/)`, of a trimmed text that is not empty. -/
def words (s : String) : List String := wordsAux s.toList []

def isCommand (text : String) : Bool := text.toList.head? == some '/'

/-- `/^\d{4,10}$/` -/
def isOtpCode (text : String) : Bool :=
  4 ≤ text.length && text.length ≤ 10 && text.toList.all Char.isDigit

/-- The number that a Naira text spells, in hundredths: digits, and at most two after a point. -/
def spelled (text : String) : Option Nat :=
  let cleaned := text.toList.filter fun c => c != '₦' && c != ',' && !isSpace c
  let naira := cleaned.takeWhile (· != '.')
  if naira.isEmpty || !naira.all Char.isDigit then none
  else match cleaned.dropWhile (· != '.') with
    | [] => some (Nat.ofDigitChars 10 naira 0 * 100)
    | _ :: kobo =>
        if (kobo.length == 1 || kobo.length == 2) && kobo.all Char.isDigit then
          some (Nat.ofDigitChars 10 (naira ++ kobo ++ List.replicate (2 - kobo.length) '0') 0)
        else none

/-- `Number.isFinite`, of so many hundredths: from `2 ^ 1024 - 2 ^ 970` on, the nearest double is infinite. -/
def isFinite (hundredths : Nat) : Bool := hundredths < 100 * ((2 ^ 128) ^ 8 - (2 ^ 97) ^ 10)

/-- Parse a Naira text to integer kobo, the number taken for what it is. -/
def parseNairaToKobo (text : String) : Option Int :=
  match spelled text with
  | none => none
  | some naira => if !isFinite naira then none else some naira

/-- A comma after every third digit, from the last one on. -/
def groupDigits : List Char → List Char
  | a :: b :: c :: d :: l => a :: b :: c :: ',' :: groupDigits (d :: l)
  | l => l

/-- Format positive kobo as a Naira amount. -/
def formatNaira (kobo : Int) : String :=
  let cents := toString (kobo % 100)
  String.ofList (groupDigits (toString (kobo / 100)).toList.reverse).reverse ++ "." ++
    String.ofList (List.replicate (2 - cents.length) '0') ++ cents

def lines (l : List String) : String := "\n".intercalate l

/-- `HELP` -/
def help : String := lines
  ["Meduman — protected payments, right here in chat.",
    "",
    "Seller:",
    "  /sell — create a protected transaction",
    "  /setup_payout — set where released funds land",
    "  /delivered — mark the current transaction delivered",
    "",
    "Buyer:",
    "  /pay <code> — pay for a transaction by its link code",
    "",
    "  /dispute <reason> — open a dispute on your current transaction",
    "  /status — show your current transaction",
    "  /cancel — abandon the current step",
    "",
    "Account:",
    "  /connect <code> — link this chat to your Meduman account"]

/-- A rejected transition has a sentence of its own. -/
def friendlyError (fallback : String) : Err → String
  | .core (.transitionRejected ..) => fallback
  | _ => "Something went wrong. Please try again in a moment."

/-- A text that is looked up as an identifier; the database refuses one that is none. -/
def parseUuid (text : String) : Program Uuid :=
  if h : isUuid text = true then pure ⟨text, h⟩
  else Prog.throw (.prisma "P2023" "Error creating UUID")

/-- `arg || session.transactionId` -/
def transactionIdOf (session : ChatSession) (arg : String) : Option String :=
  (truthy (some arg)).or (session.transactionId.map Uuid.text)

/-! ## Evidence -/

/-- `ALLOWED_MIME` -/
def allowedMime (mimeType : String) : Bool :=
  ["image/jpeg", "image/png", "image/webp", "image/gif", "application/pdf"].contains
    (String.ofList (mimeType.toList.map Char.toLower))

def defaultFilename (mimeType : String) : String :=
  let subtype := String.ofList ((mimeType.toList.dropWhile (· != '/')).drop 1)
  "chat-evidence." ++ if subtype = "" then "bin" else subtype

/-- The characters of a file name that are kept, without leading dots, dashes and underscores. -/
def safeFilename (filename : String) : String :=
  let kept := filename.toList.map fun c =>
    if c.isAlphanum || c == '.' || c == '_' || c == '-' then c else '_'
  String.ofList (kept.dropWhile fun c => c == '.' || c == '_' || c == '-')

structure CaptureEvidenceContext where
  transactionId : Uuid
  disputeId : Uuid
  uploadedBy : Uuid

/-- Store one attachment. -/
def capture (media : InboundMedia) (ctx : CaptureEvidenceContext) : Program Unit := do
  let file ← await (.downloadMedia media)
  if !allowedMime file.mimeType then Prog.throw (.unsupportedMedia file.mimeType)
  else do
    let uuid ← core (Meduman.await .randomUUID)
    let filename := media.filename.getD (defaultFilename file.mimeType)
    let path := "evidence/" ++ ctx.transactionId.text ++ "/" ++ uuid.text ++ "-" ++
      safeFilename filename
    await (.uploadFile path)
    let _ ← await (.evidenceCreate
      { transactionId := ctx.transactionId, disputeId := ctx.disputeId, uploadedBy := ctx.uploadedBy,
        storagePath := path, mimeType := file.mimeType, sizeBytes := file.size })
    pure ()

/-! ## Steps -/

/-- The identity of the sender, with the email of its user. -/
structure Caller where
  identity : ChatIdentity
  email : String

def Caller.userId (c : Caller) : Uuid := c.identity.userId

def Caller.actor (c : Caller) (role : String) : TransitionActor :=
  { id := some c.userId.text, type := .user, role := some role }

/-- `toTransactionOrigin` -/
def originOf : ChatPlatform → TransactionOrigin
  | .telegram => .telegram
  | .whatsapp => .whatsapp
  | .instagram => .instagram
  | .messenger => .messenger
  | .x => .x

def captureTitle (c : Caller) (session : ChatSession) (text : String) : Program String :=
  match Meduman.captureTitle (readDraft session).toChatDraft text with
  | none => pure "Please send a short title for what you are selling."
  | some draft => do
      updateSession env c.identity.id
        { step := some .sellerTxAmount
          draft := some (some { readDraft session with toChatDraft := draft }) }
      pure ("Got it: \"" ++ draft.title.getD "" ++ "\". What is the price in Naira? (e.g. 5000)")

def captureAmount (c : Caller) (session : ChatSession) (text : String) : Program String :=
  match Meduman.captureAmount (readDraft session).toChatDraft (parseNairaToKobo text) with
  | none => pure "That does not look like a valid amount. Send the price in Naira, e.g. 5000."
  | some draft => do
      updateSession env c.identity.id
        { step := some .sellerTxDescription
          draft := some (some { readDraft session with toChatDraft := draft }) }
      pure ("Price set to ₦" ++ formatNaira (draft.amountKobo.getD 0) ++
        ". Add a short description, or reply \"skip\".")

/-- The `SELLER_PUBLISH` of a transaction made in chat. -/
def publication (c : Caller) (transactionId : Uuid) : ApplyTransitionInput where
  transactionId := transactionId
  event := .sellerPublish
  actor := c.actor "SELLER"

/-- What the seller is told about the transaction. -/
def created (tx : Transaction) (seller : SellerProfile) : String := lines
  ["✅ Transaction created: \"" ++ tx.title ++ "\" — ₦" ++ formatNaira tx.amount ++ ".",
    "",
    "Share this code with your buyer. They pay in their own Meduman chat with:",
    "  /pay " ++ tx.publicLinkId,
    if (truthy seller.providerRecipientCode).isSome then ""
    else "\n\n⚠️ You have not set a payout destination yet. Run /setup_payout so released funds can " ++
      "reach you."]

/-- Create the transaction of the draft and publish it. -/
def captureDescriptionAndCreate (c : Caller) (session : ChatSession) (text : String) :
    Program String :=
  match (Entrypoint.chat c.userId (readDraft session).toChatDraft text
      (originOf c.identity.platform)).draft with
  | none => do
      resetSession env c.identity.id
      pure "Something went wrong building that transaction. Start again with /sell."
  | some input => do
      let tx ← core (createDraft input)
      let _ ← core (apply (publication c tx.id))
      updateSession env c.identity.id
        { step := some .idle, draft := some none, transactionId := some (some tx.id) }
      let seller ← sellers (Sellers.getOrCreate c.userId)
      pure (created tx seller)

def capturePayoutAccount (c : Caller) (text : String) : Program String :=
  match words text with
  | bankCode :: accountNumber :: _ =>
      Prog.tryCatch (do
        let profile ← sellers (Sellers.createTransferRecipient c.userId ⟨bankCode, accountNumber⟩)
        updateSession env c.identity.id { step := some .idle }
        pure ("✅ Payout destination saved: " ++ profile.settlementAccountName.getD "null" ++ " (…" ++
          profile.settlementAccountLast4.getD "null" ++ "). Released funds will be sent here.")) fun _ => do
        updateSession env c.identity.id { step := some .idle }
        pure ("Could not verify that account. Check the bank code and account number, then try " ++
          "/setup_payout again.")
  | _ => pure "Reply with bank code then account number, e.g.\n\n058 0123456789"

/-! ## Actions of a buyer or a seller -/

/-- What the buyer is told about the account to pay to. -/
def payTo (tx : Transaction) (account : VirtualAccountView) : String :=
  match truthy account.accountNumber with
  | some accountNumber => lines
      ["To pay for \"" ++ tx.title ++ "\" (₦" ++ formatNaira tx.amount ++
          "), transfer the EXACT amount from your bank app to:",
        "",
        "  Account: " ++ accountNumber,
        "  Bank: " ++ account.bankName.getD "null",
        "",
        "Your money is held safely and only released to the seller once you confirm delivery."]
  | none => "Setting up a payment account for \"" ++ tx.title ++
      "\". You'll get the account number here in a moment."

def startPayment (c : Caller) (linkCode : String) : Program String :=
  if linkCode = "" then pure "Send the transaction code, e.g. /pay abc123..."
  else do
    match ← core (Meduman.await (.transactionFindUnique (.publicLinkId linkCode))) with
    | none => pure "No transaction found for that code. Check it and try again."
    | some tx =>
      if tx.sellerId = c.userId then
        pure "You are the seller on this transaction — a buyer pays it, not you."
      else
        Prog.tryCatch (do
          let account ← core (initializeVirtualAccount tx.id c.userId c.email)
          updateSession env c.identity.id { transactionId := some (some tx.id) }
          pure (payTo tx account)) fun e =>
          pure (friendlyError "That transaction is not payable right now." e)

/-- The events that take a transaction to its delivery. -/
def delivery (c : Caller) (transactionId : Uuid) (event : TransactionEvent) :
    ApplyTransitionInput where
  transactionId := transactionId
  event := event
  actor := c.actor "SELLER"

/-- The start of a delivery that has not begun. -/
def startDelivery (c : Caller) (tx : Transaction) : Program Unit :=
  if tx.status = .paymentProtected then do
    let _ ← core (apply (delivery c tx.id .sellerStartDelivery))
    pure ()
  else pure ()

def markDelivered (c : Caller) (session : ChatSession) (arg : String) : Program String :=
  match transactionIdOf session arg with
  | none => pure "No active transaction. Create one with /sell first."
  | some txId => do
    let id ← parseUuid txId
    match ← core (Meduman.await (.transactionFindUnique (.id id))) with
    | none => pure "That is not one of your transactions."
    | some tx =>
      if tx.sellerId ≠ c.userId then pure "That is not one of your transactions."
      else
        Prog.tryCatch (do
          startDelivery c tx
          let _ ← core (apply (delivery c tx.id .sellerMarkDelivered))
          let _ ← otp (Otp.issue env.otp
            { transactionId := tx.id, purpose := .deliveryConfirmation, actor := c.actor "SELLER" })
          pure ("Marked delivered. Your buyer has been sent a confirmation code — funds release " ++
            "once they confirm.")) fun
        | .otp (.otpNotIssuable _) =>
            pure "Marked delivered, but the buyer is not ready to confirm yet."
        | e => pure (friendlyError "That transaction cannot be marked delivered right now." e)

/-- Confirm a delivery whose code was verified, and release. -/
def confirmDelivery (c : Caller) (tx : Transaction) : Program String := do
  let _ ← core (apply
    { transactionId := tx.id, event := .buyerConfirm, actor := c.actor "BUYER" })
  core (Meduman.await (.enqueueRelease tx.id))
  pure ("✅ Confirmed. Releasing funds to the seller for \"" ++ tx.title ++ "\". Thank you!")

def tryConfirmOtp (c : Caller) (code : String) : Program String := do
  match ← await (.transactionFindFirst c.userId .confirmationPending) with
  | none => pure "Send /help to see what you can do."
  | some tx => do
    let refused ← Prog.tryCatch (do
      otp (Otp.verify env.otp
        { transactionId := tx.id, purpose := .deliveryConfirmation, code := code,
          actor := c.actor "BUYER" })
      pure false) fun
    | .otp (.otpVerification ..) => pure true
    | e => Prog.throw e
    if refused then pure "That code is invalid or expired. Ask the seller to resend if needed."
    else confirmDelivery c tx

/-- The caller sells or buys in the transaction. -/
def isParty (c : Caller) (tx : Transaction) : Bool :=
  tx.sellerId == c.userId || tx.buyerId == some c.userId

/-- The complaint of a party. -/
def complaint (c : Caller) (tx : Transaction) (arg : String) : RaiseDisputeInput where
  transactionId := tx.id
  openedBy := c.userId
  role := some (if tx.sellerId = c.userId then "SELLER" else "BUYER")
  reason := .other
  description := (truthy (some arg)).map fun arg => slice arg 500

def raiseDispute (c : Caller) (session : ChatSession) (arg : String) : Program String :=
  match session.transactionId with
  | none => pure "No active transaction to dispute. Open the one you mean with /status first."
  | some txId => do
    match ← core (Meduman.await (.transactionFindUnique (.id txId))) with
    | none => pure "That is not one of your transactions."
    | some tx =>
      if !isParty c tx then pure "That is not one of your transactions."
      else
        Prog.tryCatch (do
          let dispute ← core (raise (complaint c tx arg))
          updateSession env session.chatIdentityId
            { step := some .disputeEvidence
              draft := some (some { readDraft session with disputeId := some dispute.id })
              transactionId := some (some tx.id) }
          pure ("Dispute opened. Automated release is now frozen while our team reviews it.\n\n" ++
            "Send a photo or document as evidence now, or reply \"done\".")) fun e =>
          pure (friendlyError "A dispute cannot be opened on this transaction right now." e)

/-! ## Attachments -/

/-- The newest open dispute of the current transaction, for a party of it. -/
def findCurrentDispute (c : Caller) (session : ChatSession) : Program (Option Dispute) :=
  match session.transactionId with
  | none => pure none
  | some txId => do
    match ← core (Meduman.await (.transactionFindUnique (.id txId))) with
    | none => pure none
    | some tx =>
      if !isParty c tx then pure none
      else await (.disputeFindFirst tx.id openDisputeStatuses)

/-- The dispute an attachment belongs to: the one evidence is collected for, else the current one. -/
def findEvidenceDispute (c : Caller) (session : ChatSession) : Program (Option Dispute) :=
  match (readDraft session).disputeId with
  | none => findCurrentDispute c session
  | some disputeId => do
    match ← core (Meduman.await (.disputeFindUnique disputeId)) with
    | none => findCurrentDispute c session
    | some dispute =>
      if openDisputeStatuses.contains dispute.status then pure (some dispute)
      else findCurrentDispute c session

/-- Store the attachments one by one; a failure ends it with a reply. -/
def captureAll (ctx : CaptureEvidenceContext) : List InboundMedia → Nat → Program (String ⊕ Nat)
  | [], stored => pure (.inr stored)
  | media :: rest, stored => do
      let failure ← Prog.tryCatch (do
        capture media ctx
        pure none) fun
      | .unsupportedMedia _ =>
          pure (some "That file type isn’t supported. Send a photo (JPG/PNG) or a PDF.")
      | _ => pure (some "I couldn’t save that attachment. Please try sending it again.")
      match failure with
      | some reply => pure (.inl reply)
      | none => captureAll ctx rest (stored + 1)

/-- Adapters that can download. -/
def canDownload : ChatAdapter → Bool
  | .xAdapter => false
  | _ => true

def handleMedia (adapter : ChatAdapter) (c : Caller) (session : ChatSession)
    (media : List InboundMedia) : Program String :=
  if !canDownload adapter then pure "Sorry, I can’t accept attachments on this channel yet."
  else do
    match ← findEvidenceDispute c session with
    | none =>
        pure "There’s no open dispute to attach that to. Open one with /dispute first."
    | some dispute => do
      match ← captureAll ⟨dispute.transactionId, dispute.id, c.userId⟩ media 0 with
      | .inl reply => pure reply
      | .inr stored => do
        updateSession env c.identity.id
          { step := some .disputeEvidence
            draft := some (some { readDraft session with disputeId := some dispute.id })
            transactionId := some (some dispute.transactionId) }
        pure ("Got it — " ++ toString stored ++ " " ++ (if stored = 1 then "file" else "files") ++
          " attached to your dispute. Send more, or reply \"done\".")

/-! ## Status and linking -/

def showStatus (c : Caller) (session : ChatSession) (arg : String) : Program String :=
  match transactionIdOf session arg with
  | none => pure "No active transaction. /sell to create one or /pay to pay one."
  | some txId => do
    let id ← parseUuid txId
    match ← core (Meduman.await (.transactionFindUnique (.id id))) with
    | none => pure "No transaction found for you with that code."
    | some tx =>
      if !isParty c tx then pure "No transaction found for you with that code."
      else pure ("\"" ++ tx.title ++ "\" — ₦" ++ formatNaira tx.amount ++ " — status: " ++
        tx.status.text ++ ".")

def connectReply : ConsumeOutcome → String
  | .linked _ => "Linked ✅ This chat is now connected to your Meduman account — you'll see its " ++
      "transactions in your dashboard."
  | .alreadyLinked => "Already linked ✅"
  | .pendingReview _ => "This chat account has activity we need to review before linking — we'll " ++
      "message you here shortly."
  | .retry => "A payout is processing right now — try that code again in a minute."
  | .invalid => "That code isn't valid. Get a fresh one from your Meduman account page."

def connectAccount (c : Caller) (arg : String) : Program String :=
  if arg = "" then
    pure "Send the code from your Meduman account page, e.g. /connect ABCD2345"
  else do
    let outcome ← linking (Linking.consume env.linking c.identity arg)
    pure (connectReply outcome)

/-! ## The step machine -/

def handleCommand (c : Caller) (session : ChatSession) (text : String) : Program String :=
  let arg := " ".intercalate ((words text).drop 1)
  match (words text).head? with
  | some "/start" | some "/help" => pure help
  | some "/cancel" => do
      resetSession env c.identity.id
      pure "Cancelled. Send /help to see what you can do."
  | some "/sell" => do
      updateSession env c.identity.id { step := some .sellerTxTitle, draft := some (some {}) }
      pure "Let's create a protected transaction. What are you selling? (a short title)"
  | some "/setup_payout" => do
      updateSession env c.identity.id { step := some .sellerPayoutAccount }
      pure ("Where should released funds land? Reply with your bank code and account number, e.g." ++
        "\n\n058 0123456789")
  | some "/pay" => startPayment env c arg
  | some "/delivered" => markDelivered env c session arg
  | some "/dispute" => raiseDispute env c session arg
  | some "/connect" => connectAccount env c arg
  | some "/status" => showStatus c session arg
  | _ => pure "Unknown command. Send /help."

def handleStep (c : Caller) (session : ChatSession) (text : String) : Program String :=
  match session.step with
  | .sellerTxTitle => captureTitle env c session text
  | .sellerTxAmount => captureAmount env c session text
  | .sellerTxDescription => captureDescriptionAndCreate env c session text
  | .sellerPayoutAccount => capturePayoutAccount env c text
  | .disputeEvidence => do
      updateSession env c.identity.id { step := some .idle }
      pure "Thanks — your evidence is attached to the dispute. Our team will review it."
  | .idle | .buyerAwaitOtp =>
      if isOtpCode text then tryConfirmOtp env c text
      else pure "Send /help to see what you can do."

/-- What a message says: the button pressed, or the text typed. -/
def saidIn (job : ChatInboundJobData) : String :=
  trim ((truthy job.payload).getD ((truthy job.text).getD ""))

/-- The reply to a message. -/
def handle (adapter : ChatAdapter) (c : Caller) (session : ChatSession) (job : ChatInboundJobData) :
    Program String :=
  let text := saidIn job
  if !job.media.isEmpty && !isCommand text then handleMedia env adapter c session job.media
  else if isCommand text then handleCommand env c session text
  else handleStep env c session text

/-! ## The worker -/

/-- The identity of the sender, its user, and its session. -/
def setUp (job : ChatInboundJobData) : Program (Caller × ChatSession) := do
  let identity ← linking (Linking.resolveOrCreate env.linking job.platform job.sender job.displayName)
  let email ← await (.userEmail identity.userId)
  let session ← getOrCreate env identity.id
  pure (⟨identity, email⟩, session)

/-- One attempt of a message's job; a message of a platform without adapter is dropped. -/
def processInbound (job : ChatInboundJobData) : Program Unit :=
  match env.gateway.get job.platform with
  | none => pure ()
  | some adapter => do
      let (c, session) ← setUp env job
      let reply ← handle env adapter c session job
      await (.send job.platform job.sender reply)

/-- The gateway receives a batch; the worker attempts the job with this number in the queue. -/
inductive Call
  | ingest (input : IngestInput)
  | attempt (job : Nat) (data : ChatInboundJobData)

inductive Reply
  | ingested (result : ChatWebhookResult)
  | processed

/-- Only jobs in the queue are attempted; any number of times, whenever a worker or the queue finds. -/
def admits (c : Call) (w : World) : Bool :=
  match c with
  | .ingest _ => true
  | .attempt job data => w.gateway.chatJobs[job]?.any fun j => j.data == data

def code : Call → Program Reply
  | .ingest input => Reply.ingested <$> gateway (Chat.ingest env.gateway input)
  | .attempt _ data => (fun _ => Reply.processed) <$> processInbound env data

/-- The queue forgets a job that is finished, or the rest of the system does anything but touch a
session or change whose chat an identity is. -/
inductive Move
  | forget (jobId : String)
  | others (core : Meduman.World) (accounts : Linking.World) (otp : Otp.World)
      (owner : Uuid → Uuid)

def drift (m : Move) (w : World) : Option World :=
  match m with
  | .forget jobId => (Chat.drift jobId w.gateway).map fun gateway => { w with gateway := gateway }
  | .others core accounts otp owner => do
      let chatIdentities ← w.accounts.chatIdentities.update (fun _ => true)
        fun i => { i with userId := owner i.userId }
      some { w with
        core := core, otp := otp, accounts := { accounts with chatIdentities := chatIdentities } }

/-- Ingestion and the worker, in any company. -/
abbrev worker : Service Op.Ans Err where
  World := World
  Choice := Choice
  Move := Move
  Call := Call
  Reply := Reply
  exec := exec
  drift := drift
  admits := admits
  code := code env

end Meduman.Dialog
