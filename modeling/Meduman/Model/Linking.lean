import Meduman.Model.Accounts

/-!
# Linking a chat account to a web account

First contacts mint chat-born accounts; a web account mints a code; whoever types the code into a chat
has that chat's account absorbed.

* `Linking.resolveOrCreate` : the identity of a chat account, and its user
* `Linking.mint`, `Linking.consume`, `Linking.resolve` : the life of a link request
* `Linking.service` : all of them, in any company
-/

set_option autoImplicit false

namespace Meduman.Linking

open Effect Chat

/-- The settings, the keyed hash, and JavaScript's `toUpperCase`. -/
structure Env where
  /-- `hashLinkCode(code, CHAT_LINK_HASH_SECRET)` -/
  hashLinkCode : String → String
  toUpperCase : String → String
  chatLinkCodeLength : Nat
  chatLinkCodeTtlSeconds : Int
  chatLinkMaxAttempts : Nat
  chatIdentityEmailDomain : String

/-! ## Operations -/

structure ChatLinkRequestCreate where
  codeHash : String
  targetUserId : Uuid
  expiresAt : Int
deriving DecidableEq

def ChatLinkRequestCreate.row (d : ChatLinkRequestCreate) (id : Uuid) : ChatLinkRequest where
  id := id
  codeHash := d.codeHash
  targetUserId := d.targetUserId
  platform := none
  platformUserId := none
  chatIdentityId := none
  sourceUserId := none
  status := .pending
  conflictReason := none
  attemptCount := 0
  expiresAt := d.expiresAt
  consumedAt := none
  resolvedAt := none
  resolvedBy := none

/-- What `consumeAs` records. -/
structure ConsumeData where
  status : ChatLinkRequestStatus
  platform : ChatPlatform
  platformUserId : String
  chatIdentityId : Uuid
  sourceUserId : Uuid
  conflictReason : Option MergeCollisionKind := none
deriving DecidableEq

/-- The updates of one link request. -/
inductive LinkRequestUpdate
  | countAttempt
  | consumeAs (data : ConsumeData) (now : Int)
  | reject (resolvedBy : Uuid) (now : Int)
  | promote
  | complete (resolvedBy : Uuid) (now : Int)
deriving DecidableEq

def LinkRequestUpdate.apply (d : LinkRequestUpdate) (r : ChatLinkRequest) : ChatLinkRequest :=
  match d with
  | countAttempt => { r with attemptCount := r.attemptCount + 1 }
  | consumeAs data now =>
      { r with
        status := data.status
        platform := some data.platform
        platformUserId := some data.platformUserId
        chatIdentityId := some data.chatIdentityId
        sourceUserId := some data.sourceUserId
        consumedAt := some now
        resolvedAt := some now
        conflictReason := data.conflictReason.or r.conflictReason }
  | reject resolvedBy now =>
      { r with status := .rejected, resolvedAt := some now, resolvedBy := some resolvedBy }
  | promote => { r with status := .pending, conflictReason := none }
  | complete resolvedBy now =>
      { r with status := .completed, consumedAt := some now, resolvedAt := some now,
               resolvedBy := some resolvedBy }

/-- `user.upsert` and `chatIdentity.create`, in one transaction. -/
structure IdentityCreate where
  authUserId : Uuid
  email : String
  platform : ChatPlatform
  platformUserId : String
  displayName : Option String
deriving DecidableEq

inductive Op
  | now
  | chatIdentityFindByAccount (platform : ChatPlatform) (platformUserId : String)
  | chatIdentityFindUniqueOrThrow (id : Uuid)
  | createUser (email : String)
  | identityCreate (data : IdentityCreate)
  | generateLinkCode (length : Nat)
  | linkRequestCancel (targetUserId : Uuid) (resolvedAt : Int)
  | linkRequestCreate (data : ChatLinkRequestCreate)
  | linkRequestFindByHash (codeHash : String)
  | linkRequestFindUnique (id : Uuid)
  | linkRequestUpdate (id : Uuid) (data : LinkRequestUpdate)
  | sellerProfileFindUnique (userId : Uuid)
  | transactionFindPair (sourceUserId targetUserId : Uuid)
  | invoiceFindPair (sourceUserId targetUserId : Uuid)
  | payoutFindInFlight (userIds : List Uuid)
  | mergeAccounts (sourceUserId targetUserId : Uuid) (opts : MergeOptions)
  | auditLogCreate (data : AuditRow)
deriving DecidableEq

@[reducible] def Op.Ans : Op → Type
  | now => Int
  | chatIdentityFindByAccount .. => Option ChatIdentity
  | chatIdentityFindUniqueOrThrow _ => ChatIdentity
  | createUser _ => Uuid
  | identityCreate _ => ChatIdentity
  | generateLinkCode _ => String
  | linkRequestCancel .. => Nat
  | linkRequestCreate _ => ChatLinkRequest
  | linkRequestFindByHash _ => Option ChatLinkRequest
  | linkRequestFindUnique _ => Option ChatLinkRequest
  | linkRequestUpdate .. => Unit
  | sellerProfileFindUnique _ => Option SellerProfile
  | transactionFindPair .. => Option Transaction
  | invoiceFindPair .. => Option Invoice
  | payoutFindInFlight _ => Option Payout
  | mergeAccounts .. => MergeReport
  | auditLogCreate _ => Unit

abbrev Program := Prog Op.Ans Err

abbrev await (op : Op) : Program op.Ans := Prog.perform op

/-- A generated identifier and a generated code. -/
structure Supply where
  id : Uuid
  code : String := ""
deriving DecidableEq

def chatUser (d : IdentityCreate) : User where
  id := d.authUserId
  email := d.email
  phone := none
  roleFlags := []
  merchantId := none
  status := .active
  mergedIntoUserId := none
  mergedAt := none

def chatIdentity (d : IdentityCreate) (id : Uuid) : ChatIdentity where
  id := id
  platform := d.platform
  platformUserId := d.platformUserId
  userId := d.authUserId
  displayName := d.displayName

/-- The user is there already, or is created; then the identity is. -/
def createIdentity (d : IdentityCreate) (id : Uuid) (w : World) :
    Except Err ChatIdentity × World :=
  let users := match w.users.find fun u => u.id == d.authUserId with
    | some _ => some w.users
    | none => w.users.create (chatUser d)
  match users, w.chatIdentities.create (chatIdentity d id) with
  | some users, some chatIdentities =>
      (.ok (chatIdentity d id), { w with users := users, chatIdentities := chatIdentities })
  | _, _ => (.error uniqueViolation, w)

/-- `update` of the request with this identifier. -/
def updateRequest (id : Uuid) (d : LinkRequestUpdate) (w : World) : Except Err Unit × World :=
  match w.linkRequests.find fun r => r.id == id with
  | none => (.error recordNotFound, w)
  | some _ =>
      match w.linkRequests.update (fun r => r.id == id) d.apply with
      | none => (.error uniqueViolation, w)
      | some linkRequests => (.ok (), { w with linkRequests := linkRequests })

def isPendingOf (targetUserId : Uuid) (r : ChatLinkRequest) : Bool :=
  r.targetUserId == targetUserId && r.status == .pending

/-- What a served operation answers, and the world it leaves. -/
def effect (s : Supply) (w : World) : (op : Op) → Except Err op.Ans × World
  | .now => (.ok w.clock, w)
  | .chatIdentityFindByAccount platform platformUserId =>
      (.ok (w.chatIdentities.find fun i =>
        i.platform == platform && i.platformUserId == platformUserId), w)
  | .chatIdentityFindUniqueOrThrow id =>
      match w.chatIdentities.find fun i => i.id == id with
      | none => (.error recordNotFound, w)
      | some identity => (.ok identity, w)
  | .createUser email =>
      match w.authUsers.create ⟨s.id, email, true⟩ with
      | none => (.error (.internal
          "Could not create chat auth user: A user with this email address has already been registered"),
          w)
      | some authUsers => (.ok s.id, { w with authUsers := authUsers })
  | .identityCreate d => createIdentity d s.id w
  | .generateLinkCode _ => (.ok s.code, w)
  | .linkRequestCancel targetUserId resolvedAt =>
      match w.linkRequests.update (isPendingOf targetUserId)
          fun r => { r with status := .cancelled, resolvedAt := some resolvedAt } with
      | none => (.error uniqueViolation, w)
      | some linkRequests =>
          (.ok (w.linkRequests.count (isPendingOf targetUserId)),
            { w with linkRequests := linkRequests })
  | .linkRequestCreate d =>
      if (w.users.find fun u => u.id == d.targetUserId).isNone then
        (.error (.prisma "P2003" "Foreign key constraint failed"), w)
      else match w.linkRequests.create (d.row s.id) with
        | none => (.error uniqueViolation, w)
        | some linkRequests => (.ok (d.row s.id), { w with linkRequests := linkRequests })
  | .linkRequestFindByHash codeHash =>
      (.ok (w.linkRequests.find fun r => r.codeHash == codeHash), w)
  | .linkRequestFindUnique id => (.ok (w.linkRequests.find fun r => r.id == id), w)
  | .linkRequestUpdate id d => updateRequest id d w
  | .sellerProfileFindUnique userId => (.ok (w.sellerProfiles.find (isOf userId)), w)
  | .transactionFindPair a b =>
      (.ok (w.transactions.find fun t => joins a b t.sellerId t.buyerId), w)
  | .invoiceFindPair a b => (.ok (w.invoices.find fun i => joins a b i.sellerId i.buyerId), w)
  | .payoutFindInFlight userIds => (.ok (w.payouts.find (inFlightOf userIds)), w)
  | .mergeAccounts source target opts =>
      match merge source target opts w with
      | .error e => (.error e, w)
      | .ok (report, w') => (.ok report, w')
  | .auditLogCreate d => (.ok (), { w with auditLogs := w.auditLogs ++ [d] })

/-- Identifiers are fresh. -/
def Op.fits (s : Supply) (w : World) : Op → Bool
  | createUser _ => w.authUsers.rows.all (fun a => a.id != s.id) &&
      w.users.rows.all fun u => u.id != s.id
  | identityCreate _ => w.chatIdentities.rows.all fun i => i.id != s.id
  | linkRequestCreate _ => w.linkRequests.rows.all fun r => r.id != s.id
  | _ => true

def Op.writes : Op → Bool
  | createUser _ | identityCreate _ | linkRequestCancel .. | linkRequestCreate _
  | linkRequestUpdate .. | mergeAccounts .. | auditLogCreate _ => true
  | _ => false

def Op.fallible : Op → Bool
  | now | generateLinkCode _ => false
  | _ => true

def Op.fault (message : String) : Op → Err
  | createUser _ => .internal ("Could not create chat auth user: " ++ message)
  | _ => .prisma "P1001" message

/-- The database and Supabase Auth. -/
def backend : Backend Op.Ans Err World Supply where
  effect := effect
  fits := Op.fits
  writes := Op.writes
  fallible := Op.fallible
  fault := Op.fault

/-- Time passes, someone signs up on the web, or the tables of the other services change. -/
inductive Move
  | tick (elapsed : Nat)
  | signUp (id : Uuid) (email : String)
  | others (profiles : Table Profile) (sellerProfiles : Table SellerProfile)
      (transactions : Table Transaction) (payouts : Table Payout) (invoices : Table Invoice)
      (notifications : Table Notification) (disputes : Table Dispute) (evidence : Table Evidence)

def webUser (id : Uuid) (email : String) : User where
  id := id
  email := email
  phone := none
  roleFlags := []
  merchantId := none
  status := .active
  mergedIntoUserId := none
  mergedAt := none

def drift (m : Move) (w : World) : Option World :=
  match m with
  | .tick elapsed => some { w with clock := w.clock + elapsed }
  | .signUp id email => do
      let authUsers ← w.authUsers.create ⟨id, email, false⟩
      let users ← w.users.create (webUser id email)
      some { w with authUsers := authUsers, users := users }
  | .others profiles sellerProfiles transactions payouts invoices notifications disputes evidence =>
      some { w with profiles, sellerProfiles, transactions, payouts, invoices, notifications,
                    disputes, evidence }

/-! ## First contact -/

variable (env : Env)

/-- `platform.toLowerCase()` -/
def lowerCase : ChatPlatform → String
  | .telegram => "telegram"
  | .whatsapp => "whatsapp"
  | .instagram => "instagram"
  | .messenger => "messenger"
  | .x => "x"

def syntheticEmail (platform : ChatPlatform) (platformUserId : String) : String :=
  "chat+" ++ lowerCase platform ++ "-" ++ platformUserId ++ "@" ++ env.chatIdentityEmailDomain

/-- An audit row without report. -/
def linkAudit (action targetType : String) (targetId actorId : Uuid) (actorType : ActorType)
    (reason : Option String) (metadata : List (String × Scalar)) : AuditRow where
  actorId := some actorId.text
  actorType := actorType
  action := action
  targetType := targetType
  targetId := some targetId.text
  reason := reason
  metadata := metadata

/-- The identity of a chat account; on first contact its user is minted. -/
def resolveOrCreate (platform : ChatPlatform) (platformUserId : String)
    (displayName : Option String) : Program ChatIdentity := do
  match ← await (.chatIdentityFindByAccount platform platformUserId) with
  | some existing => pure existing
  | none => do
    let email := syntheticEmail env platform platformUserId
    let authUserId ← await (.createUser email)
    Prog.tryCatch (do
      let identity ← await (.identityCreate
        { authUserId := authUserId, email := email, platform := platform,
          platformUserId := platformUserId, displayName := truthy displayName })
      await (.auditLogCreate (linkAudit "chat.identity_created" "ChatIdentity" identity.id
        authUserId .user none [("platform", .str platform.text),
          ("platformUserId", .str platformUserId)]))
      pure identity) fun e => do
        if e = uniqueViolation then
          match ← await (.chatIdentityFindByAccount platform platformUserId) with
          | some winner => pure winner
          | none => Prog.throw e
        else Prog.throw e

/-! ## Minting -/

structure MintedLinkCode where
  code : String
  expiresAt : Int
deriving DecidableEq

/-- A fresh code; the earlier ones are superseded. -/
def mint (targetUserId : Uuid) : Program MintedLinkCode := do
  let resolvedAt ← await .now
  let _ ← await (.linkRequestCancel targetUserId resolvedAt)
  let code ← await (.generateLinkCode env.chatLinkCodeLength)
  let now ← await .now
  let expiresAt := now + env.chatLinkCodeTtlSeconds * 1000
  let request ← await (.linkRequestCreate
    { codeHash := env.hashLinkCode code, targetUserId := targetUserId, expiresAt := expiresAt })
  await (.auditLogCreate (linkAudit "chat.link_code_minted" "ChatLinkRequest" request.id
    targetUserId .user none []))
  pure { code := code, expiresAt := expiresAt }

/-! ## Consuming -/

inductive ConsumeOutcome
  | linked (platform : ChatPlatform)
  | alreadyLinked
  | pendingReview (reason : MergeCollisionKind)
  | retry
  | invalid
deriving DecidableEq

/-- The characters of `\s`. -/
def isSpace (c : Char) : Bool :=
  c.isWhitespace || [0x0B, 0x0C, 0xA0, 0x1680, 0x2028, 0x2029, 0x202F, 0x205F, 0x3000,
    0xFEFF].contains c.toNat || (0x2000 ≤ c.toNat && c.toNat ≤ 0x200A)

/-- `raw.trim().toUpperCase().replace(/\s+/g, '')` -/
def normalizeLinkCode (raw : String) : String :=
  String.ofList ((env.toUpperCase raw).toList.filter fun c => !isSpace c)

/-- `detectCollision` outside a transaction: one query after the other. -/
def checkCollision (sourceUserId targetUserId : Uuid) : Program (Option MergeCollisionKind) := do
  let sourceSeller ← await (.sellerProfileFindUnique sourceUserId)
  let targetSeller ← await (.sellerProfileFindUnique targetUserId)
  if sourceSeller.isSome && targetSeller.isSome then pure (some .sellerProfileConflict)
  else do
    let selfTransaction ← await (.transactionFindPair sourceUserId targetUserId)
    if selfTransaction.isSome then pure (some .selfTransactionConflict)
    else do
      let selfInvoice ← await (.invoiceFindPair sourceUserId targetUserId)
      pure (if selfInvoice.isSome then some .selfTransactionConflict else none)

/-- Count the attempt, audit it, and tell nothing. -/
def rejectCode (identity : ChatIdentity) (request : ChatLinkRequest) (reason : String) :
    Program ConsumeOutcome := do
  await (.linkRequestUpdate request.id .countAttempt)
  await (.auditLogCreate (linkAudit "chat.link_code_rejected" "ChatLinkRequest" request.id
    identity.id .user (some reason) [("platform", .str identity.platform.text)]))
  pure .invalid

/-- Record the chat side that consumed a request. -/
def consumeAs (identity : ChatIdentity) (id : Uuid) (status : ChatLinkRequestStatus)
    (conflictReason : Option MergeCollisionKind) : Program Unit := do
  let now ← await .now
  await (.linkRequestUpdate id (.consumeAs
    { status := status, platform := identity.platform, platformUserId := identity.platformUserId,
      chatIdentityId := identity.id, sourceUserId := identity.userId,
      conflictReason := conflictReason } now))

/-- Park the request for an admin. -/
def park (identity : ChatIdentity) (id : Uuid) (reason : MergeCollisionKind) :
    Program ConsumeOutcome := do
  consumeAs identity id .pendingReview (some reason)
  pure (.pendingReview reason)

/-- Merge, and record it; the guards may find now what they did not before. -/
def mergeAndConsume (identity : ChatIdentity) (request : ChatLinkRequest) :
    Program ConsumeOutcome :=
  Prog.tryCatch (do
    let _ ← await (.mergeAccounts identity.userId request.targetUserId {})
    consumeAs identity request.id .completed none
    pure (.linked identity.platform)) fun
  | .linkMergeInFlight => pure .retry
  | .linkMergeCollision kind => park identity request.id kind
  | e => Prog.throw e

/-- Verify a code typed into chat, and absorb the chat's account into the one that minted it. -/
def consume (identity : ChatIdentity) (rawCode : String) : Program ConsumeOutcome := do
  match ← await (.linkRequestFindByHash (env.hashLinkCode (normalizeLinkCode env rawCode))) with
  | none => pure .invalid
  | some request =>
    if request.status ≠ .pending then
      rejectCode identity request ("status " ++ request.status.text)
    else do
      let now ← await .now
      if request.expiresAt ≤ now then rejectCode identity request "expired"
      else if env.chatLinkMaxAttempts ≤ request.attemptCount then
        rejectCode identity request "attempt cap reached"
      else if identity.userId = request.targetUserId then do
        consumeAs identity request.id .completed none
        pure .alreadyLinked
      else do
        let inFlight ← await (.payoutFindInFlight [identity.userId, request.targetUserId])
        if inFlight.isSome then pure .retry
        else do
          match ← checkCollision identity.userId request.targetUserId with
          | some collision => park identity request.id collision
          | none => mergeAndConsume identity request

/-! ## Resolving -/

inductive ResolveOutcome
  | complete | reject
deriving DecidableEq

structure ResolveInput where
  id : Uuid
  outcome : ResolveOutcome
  keepProfile : Option KeepProfile
  adminId : Uuid
deriving DecidableEq

/-- An admin completes a parked request or rejects it. -/
def resolve (input : ResolveInput) : Program ChatLinkRequestStatus := do
  match ← await (.linkRequestFindUnique input.id) with
  | none => Prog.throw (.notFound ("Link request " ++ input.id.text ++ " not found"))
  | some request =>
    if request.status ≠ .pendingReview then
      Prog.throw (.conflict ("Link request is " ++ request.status.text ++ ", not PENDING_REVIEW"))
    else match request.sourceUserId, request.chatIdentityId with
      | some sourceUserId, some chatIdentityId =>
        if input.outcome = .reject then do
          let now ← await .now
          await (.linkRequestUpdate input.id (.reject input.adminId now))
          await (.auditLogCreate (linkAudit "chat.link_request_rejected" "ChatLinkRequest" input.id
            input.adminId .admin none []))
          pure .rejected
        else if request.conflictReason = some .selfTransactionConflict then
          Prog.throw (.conflict ("SELF_TRANSACTION_CONFLICT cannot be resolved by choosing a " ++
            "profile — reject it instead"))
        else match input.keepProfile with
          | none => Prog.throw (.conflict
              "keepProfile is required to resolve a SELLER_PROFILE_CONFLICT")
          | some keepProfile => do
            await (.linkRequestUpdate input.id .promote)
            let identity ← await (.chatIdentityFindUniqueOrThrow chatIdentityId)
            let report ← await (.mergeAccounts sourceUserId request.targetUserId
              { keepProfile := some keepProfile
                overrideCollision := some .sellerProfileConflict })
            let now ← await .now
            await (.linkRequestUpdate input.id (.complete input.adminId now))
            await (.auditLogCreate { linkAudit "chat.link_request_completed" "ChatLinkRequest"
              input.id input.adminId .admin none
                [("keepProfile", .str (match keepProfile with
                  | .target => "TARGET"
                  | .source => "SOURCE")), ("platform", .str identity.platform.text)] with
              report := some report })
            pure .completed
      | _, _ => Prog.throw (.conflict "Link request has no chat side to merge")

/-! ## The service -/

/-- A chat message, whose sender connects with a code or does something else; a web account that mints;
an admin who resolves. -/
inductive Call
  | message (platform : ChatPlatform) (platformUserId : String) (displayName : Option String)
      (connect : Option String)
  | mint (targetUserId : Uuid)
  | resolve (input : ResolveInput)

inductive Reply
  | identity (identity : ChatIdentity)
  | consumed (outcome : ConsumeOutcome)
  | minted (code : MintedLinkCode)
  | resolved (status : ChatLinkRequestStatus)

/-- Whoever mints is signed in. -/
def admits (c : Call) (w : World) : Bool :=
  match c with
  | .mint targetUserId => w.authUsers.rows.any fun a => a.id == targetUserId
  | _ => true

/-- A message from a chat account. -/
def receive (platform : ChatPlatform) (platformUserId : String) (displayName connect : Option String) :
    Program Reply := do
  let identity ← resolveOrCreate env platform platformUserId displayName
  match connect with
  | none => pure (.identity identity)
  | some code => Reply.consumed <$> consume env identity code

/-- The program of a call. -/
def code : Call → Program Reply
  | .message platform platformUserId displayName connect =>
      receive env platform platformUserId displayName connect
  | .mint targetUserId => Reply.minted <$> mint env targetUserId
  | .resolve input => Reply.resolved <$> resolve input

/-- Any number of messages, mints and resolutions. -/
abbrev service : Service Op.Ans Err where
  World := World
  Choice := Fate Supply
  Move := Move
  Call := Call
  Reply := Reply
  exec := backend.exec
  drift := drift
  admits := admits
  code := code env

/-- The configurations linking can reach. -/
def Reachable (x : Config (service env)) : Prop := Reaches Guard.free ⟨World.initial, []⟩ x

end Meduman.Linking
