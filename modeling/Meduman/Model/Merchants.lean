import Meduman.Effect.Embed
import Meduman.Model.Listing
import Meduman.Model.Outbound
import Meduman.Model.Sellers
import Meduman.Model.Ssrf
import Meduman.Model.System
import Meduman.Text.Hex

/-!
# Merchants and their API

Administrators open merchants and issue their API keys; a request of the `/v1` API is let in by the key
it presents, and acts for the merchant of the key: it opens sellers, transactions and a webhook endpoint,
and lists what the merchant has.

* `Merchants.canActivate` : the guard of the API
* `Merchants.createTransaction`, `Merchants.publish`, `Merchants.createSeller`,
  `Merchants.setEndpoint`, … : the handlers behind it
* `Merchants.createMerchant`, `Merchants.issueKey`, `Merchants.revokeKey` : the administrators
* `Merchants.service` : the API beside the core, the onboarding of sellers and the outbound deliveries
-/

set_option autoImplicit false

namespace Meduman.Merchants

open Effect
open Paging (Page)
open Outbound (OutboundEventStatus WebhookEndpointStatus)
open Sellers (CreateTransferRecipientDto)

/-! ## Rows -/

inductive MerchantStatus
  | active | suspended
deriving DecidableEq, Repr

structure Merchant where
  id : Uuid
  name : String
  status : MerchantStatus
  livemodeEnabled : Bool
deriving DecidableEq

instance : Constrained Merchant where
  clash a b := a.id == b.id
  clash_comm _ _ := Bool.beq_comm

/-- An issued key; of its text only a hash and a prefix are stored. -/
structure MerchantApiKey where
  id : Uuid
  merchantId : Uuid
  keyPrefix : String
  keyHash : String
  livemode : Bool
  lastUsedAt : Option Int
  revokedAt : Option Int
deriving DecidableEq

instance : Constrained MerchantApiKey where
  clash a b := a.id == b.id || a.keyHash == b.keyHash
  clash_comm a b := by rw [Bool.beq_comm, @Bool.beq_comm _ _ _ a.keyHash]

/-- The columns of a user the core leaves out. -/
structure Account where
  id : Uuid
  email : String
  fullName : Option String
  merchantId : Option Uuid
deriving DecidableEq

instance : Constrained Account where
  clash a b := a.id == b.id || a.email == b.email
  clash_comm a b := by rw [Bool.beq_comm, @Bool.beq_comm _ _ _ a.email]

/-- The columns of a seller profile the core leaves out; none stored where they are null. -/
structure ProfileColumns where
  userId : Uuid
  businessName : Option String
  merchantId : Option Uuid
deriving DecidableEq

instance : Constrained ProfileColumns where
  clash a b := a.userId == b.userId
  clash_comm _ _ := Bool.beq_comm

/-- A webhook endpoint, with the columns a delivery does not read. -/
structure WebhookEndpoint extends Outbound.WebhookEndpoint where
  id : Uuid
  createdAt : Int
deriving DecidableEq

instance : Constrained WebhookEndpoint where
  clash a b := a.merchantId == b.merchantId || a.id == b.id
  clash_comm a b := by rw [Bool.beq_comm, @Bool.beq_comm _ _ _ a.id]

structure World where
  core : Meduman.World
  accounts : Table Account
  profiles : Table ProfileColumns
  merchants : Table Merchant
  apiKeys : Table MerchantApiKey
  endpoints : Table WebhookEndpoint
  outboundEvents : Table Outbound.OutboundEvent
  /-- The jobs `webhook.<eventId>` -/
  jobs : Queue Uuid

def World.initial : World where
  core := .initial
  accounts := .empty
  profiles := .empty
  merchants := .empty
  apiKeys := .empty
  endpoints := .empty
  outboundEvents := .empty
  jobs := []

/-! ## The world as its services see it -/

def Account.user (a : Account) : Sellers.Account := ⟨a.id, a.merchantId⟩

/-- What the onboarding of sellers sees. -/
def World.sellers (w : World) : Sellers.World where
  users := w.accounts.map Account.user fun a b h => by
    rw [show (Constrained.clash a b : Bool) = (a.id == b.id || a.email == b.email) from rfl,
      show (a.id == b.id) = true from h, Bool.true_or]
  sellerProfiles := w.core.sellerProfiles
  auditLogs := w.core.auditLogs

/-- The world after the onboarding left this. -/
def World.withSellers (w : World) (s : Sellers.World) : World :=
  { w with core := { w.core with sellerProfiles := s.sellerProfiles, auditLogs := s.auditLogs } }

/-- What the outbound deliveries see. -/
def World.outbound (w : World) : Outbound.World where
  clock := w.core.clock
  outboundEvents := w.outboundEvents
  endpoints := w.endpoints.map WebhookEndpoint.toWebhookEndpoint fun a b h => by
    rw [show (Constrained.clash a b : Bool) = (a.merchantId == b.merchantId || a.id == b.id) from rfl,
      show (a.merchantId == b.merchantId) = true from h, Bool.true_or]
  jobs := w.jobs

/-- The world after a delivery left this. -/
def World.withOutbound (w : World) (o : Outbound.World) : World :=
  { w with outboundEvents := o.outboundEvents, jobs := o.jobs }

/-- The merchant opened the account. -/
def World.owns (w : World) (merchantId userId : Uuid) : Bool :=
  w.accounts.rows.any fun a => a.id == userId && a.merchantId == some merchantId

def World.hasMerchant (w : World) (id : Uuid) : Bool := w.merchants.rows.any fun m => m.id == id

/-! ## Operations -/

structure MerchantUpdate where
  status : Option MerchantStatus := none
  livemodeEnabled : Option Bool := none
deriving DecidableEq

def MerchantUpdate.apply (d : MerchantUpdate) (m : Merchant) : Merchant :=
  { m with
    status := d.status.getD m.status
    livemodeEnabled := d.livemodeEnabled.getD m.livemodeEnabled }

structure MerchantApiKeyCreate where
  merchantId : Uuid
  keyPrefix : String
  keyHash : String
  livemode : Bool
deriving DecidableEq

def MerchantApiKeyCreate.row (d : MerchantApiKeyCreate) (id : Uuid) : MerchantApiKey where
  id := id
  merchantId := d.merchantId
  keyPrefix := d.keyPrefix
  keyHash := d.keyHash
  livemode := d.livemode
  lastUsedAt := none
  revokedAt := none

structure UserCreate where
  id : Uuid
  email : String
  fullName : String
  roleFlags : List UserRole
  merchantId : Uuid
deriving DecidableEq

def UserCreate.account (d : UserCreate) : Account := ⟨d.id, d.email, some d.fullName, some d.merchantId⟩

structure SellerProfileCreate where
  userId : Uuid
  businessName : String
  merchantId : Uuid
deriving DecidableEq

def SellerProfileCreate.columns (d : SellerProfileCreate) : ProfileColumns :=
  ⟨d.userId, some d.businessName, some d.merchantId⟩

structure WebhookEndpointUpsert where
  merchantId : Uuid
  url : String
  secretEnc : String
  livemode : Bool
deriving DecidableEq

/-- The row that is created. -/
def WebhookEndpointUpsert.row (d : WebhookEndpointUpsert) (id : Uuid) (now : Int) : WebhookEndpoint where
  merchantId := d.merchantId
  url := d.url
  secretEnc := d.secretEnc
  livemode := d.livemode
  status := .active
  id := id
  createdAt := now

/-- The row that is updated. -/
def WebhookEndpointUpsert.apply (d : WebhookEndpointUpsert) (e : WebhookEndpoint) : WebhookEndpoint :=
  { e with url := d.url, secretEnc := d.secretEnc, livemode := d.livemode, status := .active }

/-- What the services of the merchants await themselves. -/
inductive MerchantOp
  | randomBytes (size : Nat)
  | merchantCreate (name : String)
  | merchantUpdate (id : Uuid) (data : MerchantUpdate)
  | apiKeyCreate (data : MerchantApiKeyCreate)
  | apiKeyRevoke (id merchantId : Uuid) (revokedAt : Int)
  | apiKeyFindUnique (keyHash : String)
  | apiKeyUpdate (id : Uuid) (lastUsedAt : Int)
  | userCreate (data : UserCreate)
  | sellerProfileCreate (data : SellerProfileCreate)
  | sellerProfileFindMany (merchantId : Uuid)
  | sellerProfileFindUnique (userId : Uuid)
  | transactionFindFirst (id merchantId : Uuid)
  | transactionFindMany (merchantId : Uuid) (status : Option TransactionStatus) (take : Nat)
      (cursor : Option Uuid)
  | webhookEndpointUpsert (data : WebhookEndpointUpsert)
  | webhookEndpointFindUnique (merchantId : Uuid)
  | webhookEndpointUpdate (merchantId : Uuid) (secretEnc : String)
  | webhookEndpointDisable (merchantId : Uuid)
  | outboundEventFindMany (merchantId : Uuid) (status : Option OutboundEventStatus) (take : Nat)
      (cursor : Option Uuid)
deriving DecidableEq

/-- A seller profile with the name of its business. -/
abbrev NamedProfile := SellerProfile × Option String

@[reducible] def MerchantOp.Ans : MerchantOp → Type
  | randomBytes _ => List UInt8
  | merchantCreate _ => Merchant
  | merchantUpdate .. => Merchant
  | apiKeyCreate _ => MerchantApiKey
  | apiKeyRevoke .. => Unit
  | apiKeyFindUnique _ => Option (MerchantApiKey × Merchant)
  | apiKeyUpdate .. => Unit
  | userCreate _ => Account
  | sellerProfileCreate _ => NamedProfile
  | sellerProfileFindMany _ => List NamedProfile
  | sellerProfileFindUnique _ => Option NamedProfile
  | transactionFindFirst .. => Option Transaction
  | transactionFindMany .. => List Transaction
  | webhookEndpointUpsert _ => WebhookEndpoint
  | webhookEndpointFindUnique _ => Option WebhookEndpoint
  | webhookEndpointUpdate .. => Unit
  | webhookEndpointDisable _ => Unit
  | outboundEventFindMany .. => List Outbound.OutboundEvent

inductive Op
  | core (op : Meduman.Op)
  | sellers (op : Sellers.Op)
  | outbound (op : Outbound.Op)
  | merchant (op : MerchantOp)

@[reducible] def Op.Ans : Op → Type
  | core op => op.Ans
  | sellers op => op.Ans
  | outbound op => op.Ans
  | merchant op => op.Ans

inductive Err
  | core (e : Meduman.Err)
  | sellers (e : Sellers.Err)
  | outbound (e : Outbound.Err)
  | unauthorized (message : String)
  | forbidden (message : String)
  | notFound (message : String)
  | badRequest (message : String)
  | prisma (code message : String)

abbrev Program := Prog Op.Ans Err

/-- What the environment makes up: an identifier, random bytes, and the `createdAt` of the transactions,
which the core leaves out. -/
structure Supply where
  id : Uuid
  bytes : List UInt8 := []
  dates : List Int := []

def foreignKeyViolation : Err := .prisma "P2003" "Foreign key constraint failed"

def uniqueViolation : Err := .prisma "P2002" "Unique constraint failed"

def recordNotFound : Err := .prisma "P2025" "Record to update not found"

/-- The outbound events of a merchant. -/
def ofMerchant (merchantId : Uuid) (status : Option OutboundEventStatus)
    (e : Outbound.OutboundEvent) : Bool :=
  e.merchantId == merchantId && status.all (e.status == ·)

def apiKeyCreate (d : MerchantApiKeyCreate) (id : Uuid) (w : World) : Except Err MerchantApiKey × World :=
  if w.hasMerchant d.merchantId then
    match w.apiKeys.create (d.row id) with
    | none => (.error uniqueViolation, w)
    | some apiKeys => (.ok (d.row id), { w with apiKeys := apiKeys })
  else (.error foreignKeyViolation, w)

/-- A key is found with its merchant. -/
def apiKeyFindUnique (keyHash : String) (w : World) : Except Err (Option (MerchantApiKey × Merchant)) :=
  match w.apiKeys.find fun k => k.keyHash == keyHash with
  | none => .ok none
  | some k =>
      match w.merchants.find fun m => m.id == k.merchantId with
      | none => .error (.prisma "P2000" "Field merchant is required to return data")
      | some m => .ok (some (k, m))

/-- A user of a merchant; its role flags are with the core's columns. -/
def userCreate (d : UserCreate) (w : World) : Except Err Account × World :=
  if w.hasMerchant d.merchantId then
    match w.core.users.create ⟨d.id, d.roleFlags⟩, w.accounts.create d.account with
    | some users, some accounts =>
        (.ok d.account, { w with core := { w.core with users := users }, accounts := accounts })
    | _, _ => (.error uniqueViolation, w)
  else (.error foreignKeyViolation, w)

def sellerProfileCreate (d : SellerProfileCreate) (w : World) : Except Err NamedProfile × World :=
  if w.accounts.rows.any fun a => a.id == d.userId then
    match w.core.sellerProfiles.create { userId := d.userId }, w.profiles.create d.columns with
    | some sellerProfiles, some profiles =>
        (.ok ({ userId := d.userId }, some d.businessName),
          { w with core := { w.core with sellerProfiles := sellerProfiles }, profiles := profiles })
    | _, _ => (.error uniqueViolation, w)
  else (.error foreignKeyViolation, w)

/-- The profile of a user, with the name of the business. -/
def namedProfile (userId : Uuid) (w : World) : Option NamedProfile :=
  (w.core.sellerProfiles.find (Sellers.isOf userId)).map fun p =>
    (p, (w.profiles.find fun c => c.userId == userId).bind ProfileColumns.businessName)

def webhookEndpointUpsert (d : WebhookEndpointUpsert) (id : Uuid) (w : World) :
    Except Err WebhookEndpoint × World :=
  if w.hasMerchant d.merchantId then
    match w.endpoints.find fun e => e.merchantId == d.merchantId with
    | none =>
        match w.endpoints.create (d.row id w.core.clock) with
        | none => (.error uniqueViolation, w)
        | some endpoints => (.ok (d.row id w.core.clock), { w with endpoints := endpoints })
    | some e =>
        match w.endpoints.update (fun e => e.merchantId == d.merchantId) d.apply with
        | none => (.error uniqueViolation, w)
        | some endpoints => (.ok (d.apply e), { w with endpoints := endpoints })
  else (.error foreignKeyViolation, w)

/-- `webhookEndpoint.update` of the secret. -/
def webhookEndpointUpdate (merchantId : Uuid) (secretEnc : String) (w : World) : Except Err Unit × World :=
  match w.endpoints.find fun e => e.merchantId == merchantId with
  | none => (.error recordNotFound, w)
  | some _ =>
      match w.endpoints.update (fun e => e.merchantId == merchantId)
          fun e => { e with secretEnc := secretEnc } with
      | none => (.error uniqueViolation, w)
      | some endpoints => (.ok (), { w with endpoints := endpoints })

/-- What a served operation answers, and the world it leaves. -/
def effect (s : Supply) (w : World) : (op : MerchantOp) → Except Err op.Ans × World
  | .randomBytes _ => (.ok s.bytes, w)
  | .merchantCreate name =>
      match w.merchants.create ⟨s.id, name, .active, false⟩ with
      | none => (.error uniqueViolation, w)
      | some merchants => (.ok ⟨s.id, name, .active, false⟩, { w with merchants := merchants })
  | .merchantUpdate id d =>
      match w.merchants.find fun m => m.id == id with
      | none => (.error recordNotFound, w)
      | some m =>
          match w.merchants.update (fun m => m.id == id) d.apply with
          | none => (.error uniqueViolation, w)
          | some merchants => (.ok (d.apply m), { w with merchants := merchants })
  | .apiKeyCreate d => apiKeyCreate d s.id w
  | .apiKeyRevoke id merchantId revokedAt =>
      match w.apiKeys.update (fun k => k.id == id && k.merchantId == merchantId && k.revokedAt.isNone)
          fun k => { k with revokedAt := some revokedAt } with
      | none => (.error uniqueViolation, w)
      | some apiKeys => (.ok (), { w with apiKeys := apiKeys })
  | .apiKeyFindUnique keyHash => (apiKeyFindUnique keyHash w, w)
  | .apiKeyUpdate id lastUsedAt =>
      match w.apiKeys.find fun k => k.id == id with
      | none => (.error recordNotFound, w)
      | some _ =>
          match w.apiKeys.update (fun k => k.id == id) fun k => { k with lastUsedAt := some lastUsedAt } with
          | none => (.error uniqueViolation, w)
          | some apiKeys => (.ok (), { w with apiKeys := apiKeys })
  | .userCreate d => userCreate d w
  | .sellerProfileCreate d => sellerProfileCreate d w
  | .sellerProfileFindMany merchantId =>
      (.ok ((w.profiles.filter fun c => c.merchantId == some merchantId).filterMap fun c =>
        namedProfile c.userId w), w)
  | .sellerProfileFindUnique userId => (.ok (namedProfile userId w), w)
  | .transactionFindFirst id merchantId =>
      (.ok (w.core.transactions.find fun t => t.id == id && t.merchantId == some merchantId), w)
  | .transactionFindMany merchantId status take cursor =>
      (.ok ((Listing.findMany Transaction.id (List.zipWith Listing.Dated.mk s.dates w.core.transactions.rows)
        (Listing.ofMerchant merchantId status) take cursor).map Listing.Dated.row), w)
  | .webhookEndpointUpsert d => webhookEndpointUpsert d s.id w
  | .webhookEndpointFindUnique merchantId => (.ok (w.endpoints.find fun e => e.merchantId == merchantId), w)
  | .webhookEndpointUpdate merchantId secretEnc => webhookEndpointUpdate merchantId secretEnc w
  | .webhookEndpointDisable merchantId =>
      match w.endpoints.update (fun e => e.merchantId == merchantId)
          fun e => { e with status := .disabled } with
      | none => (.error uniqueViolation, w)
      | some endpoints => (.ok (), { w with endpoints := endpoints })
  | .outboundEventFindMany merchantId status take cursor =>
      (.ok ((Listing.findMany Outbound.OutboundEvent.id (w.outboundEvents.rows.map fun e => ⟨e.createdAt, e⟩)
        (ofMerchant merchantId status) take cursor).map Listing.Dated.row), w)

/-- Generated identifiers are fresh, random bytes are as many as asked for, and every transaction has its
date. -/
def MerchantOp.fits (s : Supply) (w : World) : MerchantOp → Bool
  | randomBytes size => s.bytes.length == size
  | merchantCreate _ => w.merchants.rows.all fun m => m.id != s.id
  | apiKeyCreate _ => w.apiKeys.rows.all fun k => k.id != s.id
  | webhookEndpointUpsert _ => w.endpoints.rows.all fun e => e.id != s.id
  | transactionFindMany .. => s.dates.length == w.core.transactions.rows.length
  | _ => true

def MerchantOp.writes : MerchantOp → Bool
  | merchantCreate _ | merchantUpdate .. | apiKeyCreate _ | apiKeyRevoke .. | apiKeyUpdate ..
  | userCreate _ | sellerProfileCreate _ | webhookEndpointUpsert _ | webhookEndpointUpdate ..
  | webhookEndpointDisable _ => true
  | _ => false

def MerchantOp.fallible : MerchantOp → Bool
  | randomBytes _ => false
  | _ => true

/-- The database. -/
def backend : Backend MerchantOp.Ans Err World Supply where
  effect := effect
  fits := MerchantOp.fits
  writes := MerchantOp.writes
  fallible := MerchantOp.fallible
  fault message _ := .prisma "P1001" message

/-- The outcome of an operation, by whose it is. -/
inductive Choice
  | core (o : Outcome)
  | sellers (f : Fate String)
  | outbound (f : Fate Outbound.Supply)
  | merchant (f : Fate Supply)

def exec (op : Op) (choice : Choice) (w : World) : Option (Except Err op.Ans × World) :=
  match op, choice with
  | .core op, .core o =>
      (Meduman.exec op o w.core).map fun r => (r.1.mapError Err.core, { w with core := r.2 })
  | .sellers op, .sellers f =>
      (Sellers.backend.exec op f w.sellers).map fun r => (r.1.mapError Err.sellers, w.withSellers r.2)
  | .outbound op, .outbound f =>
      (Outbound.backend.exec op f w.outbound).map fun r => (r.1.mapError Err.outbound, w.withOutbound r.2)
  | .merchant op, .merchant f => backend.exec op f w
  | _, _ => none

def coreEmbedding : Embedding Meduman.Op.Ans Meduman.Err Op.Ans Err where
  op := .core
  err := .core
  back _ := Except.mapError fun
    | .core e => e
    | _ => .plain ""

def sellersEmbedding : Embedding Sellers.Op.Ans Sellers.Err Op.Ans Err where
  op := .sellers
  err := .sellers
  back _ := Except.mapError fun
    | .sellers e => e
    | _ => .notFound ""

def outboundEmbedding : Embedding Outbound.Op.Ans Outbound.Err Op.Ans Err where
  op := .outbound
  err := .outbound
  back _ := Except.mapError fun
    | .outbound e => e
    | _ => .plain ""

/-- What the core does. -/
abbrev core {α : Type} (p : Meduman.Program α) : Program α := p.embed coreEmbedding

abbrev sellers {α : Type} (p : Sellers.Program α) : Program α := p.embed sellersEmbedding

abbrev outbound {α : Type} (p : Outbound.Program α) : Program α := p.embed outboundEmbedding

abbrev await (op : MerchantOp) : Program op.Ans := Prog.perform (Op.merchant op)

/-! ## Keys and secrets -/

/-- AES-256-GCM under one key: the authentication tag and the ciphertext of a text, and the text again. -/
structure Gcm where
  cipher : List UInt8 → String → List UInt8 × List UInt8
  decipher : List UInt8 → List UInt8 → List UInt8 → Option String
  decipher_cipher : ∀ iv plaintext, decipher iv (cipher iv plaintext).1 (cipher iv plaintext).2 = some plaintext

/-- The settings, and the functions of the runtime the services rest on. -/
structure Env where
  core : Meduman.Env
  ssrf : Ssrf.Env
  /-- `aes-256-gcm` under `deriveKey(EAAS_WEBHOOK_SIGNING_KEY)` -/
  gcm : Gcm
  /-- `hashApiKey(plaintext, EAAS_API_KEY_SECRET)` -/
  hashApiKey : String → String
  /-- `createHmac('sha256', secret).update(text).digest('hex')` -/
  hmac : String → String → String
  /-- `JSON.stringify({ id, type, data })` -/
  stringify : Uuid → String → OutboundPayload → String
  /-- `IsUrl({ require_tld: false })` -/
  isUrl : String → Bool
  /-- `IsEmail()` -/
  isEmail : String → Bool
  /-- `APP_URL` -/
  appUrl : String
  /-- `WEBHOOK_MAX_ATTEMPTS` -/
  maxAttempts : Nat
  maxAttempts_pos : 0 < maxAttempts

/-- `toString('hex')` -/
def hexText (bytes : List UInt8) : String := String.ofList (Text.hex bytes)

/-- The tag of a key, by its mode. -/
def keyTag (livemode : Bool) : String := if livemode then "sk_live_" else "sk_test_"

/-- A fresh key: its text, and its prefix. -/
def generateApiKey (livemode : Bool) : Program (String × String) := do
  let body := hexText (← await (.randomBytes 20))
  pure (keyTag livemode ++ body, keyTag livemode ++ slice body 6)

/-- The signing secret made of random bytes. -/
def webhookSecret (bytes : List UInt8) : String := "whsec_" ++ hexText bytes

def generateWebhookSecret : Program String := do
  let bytes ← await (.randomBytes 20)
  pure (webhookSecret bytes)

/-- `iv:tag:ciphertext` -/
def encrypted (gcm : Gcm) (iv : List UInt8) (plaintext : String) : String :=
  String.ofList ([':'].intercalate
    [Text.hex iv, Text.hex (gcm.cipher iv plaintext).1, Text.hex (gcm.cipher iv plaintext).2])

def encryptSecret (gcm : Gcm) (plaintext : String) : Program String := do
  let iv ← await (.randomBytes 12)
  pure (encrypted gcm iv plaintext)

/-- None when it throws. -/
def decryptSecret (gcm : Gcm) (enc : String) : Option String :=
  match Text.split [':'] enc.toList with
  | [ivHex, tagHex, ctHex] => gcm.decipher (Text.unhex ivHex) (Text.unhex tagHex) (Text.unhex ctHex)
  | _ => none

/-- `assertPublicUrl(url, { allowHttp })`: the message of its refusal. -/
def Env.refusal (env : Env) (url : String) (allowHttp : Bool) : Option String :=
  match Ssrf.assertPublicUrl env.ssrf url allowHttp with
  | .ok _ => none
  | .error e => some e.message

/-- What the deliveries rest on. -/
def Env.outbound (env : Env) : Outbound.Env where
  maxAttempts := env.maxAttempts
  maxAttempts_pos := env.maxAttempts_pos
  assertPublicUrl := env.refusal
  decryptSecret := decryptSecret env.gcm
  hmac := env.hmac
  stringify := env.stringify

variable (env : Env)

/-! ## The guard -/

/-- Whom a request acts for. -/
structure MerchantContext where
  id : Uuid
  livemode : Bool
deriving DecidableEq

/-- The token of `Bearer <token>`. -/
def extractBearer (header : Option String) : Option String :=
  match truthy header with
  | none => none
  | some header =>
      match Text.split [' '] header.toList with
      | scheme :: value :: _ =>
          if scheme = "Bearer".toList ∧ value ≠ [] then some (String.ofList value) else none
      | _ => none

/-- The text of a key, if the header presents one. -/
def presented (header : Option String) : Option String :=
  (extractBearer header).filter fun key => "sk_".toList.isPrefixOf key.toList

/-- The merchant and the mode of a key that is issued, not revoked, and of an active merchant. -/
def verifyKey (plaintext : String) : Program (Option (Merchant × Bool)) := do
  match ← await (.apiKeyFindUnique (env.hashApiKey plaintext)) with
  | none => pure none
  | some (row, merchant) =>
      if row.revokedAt.isSome ∨ merchant.status ≠ .active then pure none
      else do
        let now ← core (Meduman.await .now)
        await (.apiKeyUpdate row.id now)
        pure (some (merchant, row.livemode))

def canActivate (header : Option String) : Program MerchantContext := do
  match presented header with
  | none => Prog.throw (.unauthorized "Missing API key")
  | some key =>
      match ← verifyKey env key with
      | none => Prog.throw (.unauthorized "Invalid API key")
      | some (merchant, livemode) =>
          if livemode ∧ ¬ merchant.livemodeEnabled then
            Prog.throw (.forbidden "Live mode is not enabled for this merchant")
          else pure ⟨merchant.id, livemode⟩

/-! ## Replies -/

structure TransactionView where
  id : Uuid
  status : TransactionStatus
  amount : Int
  currency : String
  title : String
  payLinkUrl : String
deriving DecidableEq

/-- What a merchant may know of a transaction. -/
def view (tx : Transaction) : TransactionView where
  id := tx.id
  status := tx.status
  amount := tx.amount
  currency := tx.currency
  title := tx.title
  payLinkUrl := env.appUrl ++ "/pay/" ++ tx.publicLinkId

structure SellerView where
  id : Uuid
  businessName : Option String
  settlementReady : Bool
deriving DecidableEq

/-- `!!providerRecipientCode` -/
def settlementReady (p : SellerProfile) : Bool := (truthy p.providerRecipientCode).isSome

def sellerView (p : NamedProfile) : SellerView := ⟨p.1.userId, p.2, settlementReady p.1⟩

structure RecipientView where
  settlementReady : Bool
  bankCode : Option String
  accountName : Option String
  accountLast4 : Option String
deriving DecidableEq

structure EndpointView where
  id : Uuid
  url : String
  livemode : Bool
  status : WebhookEndpointStatus
  createdAt : Int
deriving DecidableEq

def WebhookEndpoint.view (e : WebhookEndpoint) : EndpointView :=
  ⟨e.id, e.url, e.livemode, e.status, e.createdAt⟩

structure EventView where
  id : Uuid
  type : String
  status : OutboundEventStatus
  attemptCount : Nat
  createdAt : Int
  deliveredAt : Option Int
deriving DecidableEq

def eventView (e : Outbound.OutboundEvent) : EventView :=
  ⟨e.id, e.type, e.status, e.attemptCount, e.createdAt, e.deliveredAt⟩

inductive Reply
  | transaction (view : TransactionView)
  | transactions (page : Page TransactionView Uuid)
  | sellerCreated (id : Uuid) (businessName : Option String)
  | sellers (views : List SellerView)
  | seller (view : SellerView)
  | recipient (view : RecipientView)
  | endpointSet (id : Uuid) (url secret : String)
  | endpoint (view : Option EndpointView)
  | rotated (secret : String)
  | disabled
  | events (page : Page EventView Uuid)
  | merchantCreated (merchant : Merchant) (apiKey : String)
  | keyIssued (apiKey : String) (keyId : Uuid)
  | done
  | core (reply : Meduman.Reply)
  | onboarded (profile : SellerProfile)
  | outbound (reply : Outbound.Reply)

/-- The rows of a page; one more was read, to know whether there is a next one. -/
def toPage {ρ σ : Type} (id : ρ → Uuid) (view : ρ → σ) (take : Nat) (rows : List ρ) : Page σ Uuid where
  items := (rows.take take).map view
  nextCursor := if take < rows.length then (rows.take take).getLast?.map id else none

/-! ## Transactions of a merchant -/

/-- A transaction for a seller of the merchant. -/
def createTransaction (m : MerchantContext) (dto : CreateV1TransactionDto) : Program Reply :=
  match (Entrypoint.v1 m.id dto).draft with
  | none => Prog.throw (.badRequest "Bad Request")
  | some input => do
      sellers (Sellers.assertOwnedSeller m.id dto.sellerId)
      let tx ← core (createDraft input)
      pure (.transaction (view env tx))

structure ListV1TransactionsDto where
  status : Option TransactionStatus := none
  cursor : Option Uuid := none
  limit : Option Nat := none
deriving DecidableEq

/-- `Min(1)`, `Max(50)` -/
def limitValid (limit : Option Nat) : Bool := limit.all fun n => 1 ≤ n && n ≤ 50

def listTransactions (m : MerchantContext) (q : ListV1TransactionsDto) : Program Reply := do
  let take := q.limit.getD 20
  let rows ← await (.transactionFindMany m.id q.status (take + 1) q.cursor)
  pure (.transactions (toPage Transaction.id (view env) take rows))

def getByIdForMerchant (merchantId id : Uuid) : Program Transaction := do
  match ← await (.transactionFindFirst id merchantId) with
  | none => Prog.throw (.notFound ("Transaction " ++ id.text ++ " not found"))
  | some tx => pure tx

def getTransaction (m : MerchantContext) (id : Uuid) : Program Reply := do
  let tx ← getByIdForMerchant m.id id
  pure (.transaction (view env tx))

/-- The publication of a merchant. -/
def publication (m : MerchantContext) (id : Uuid) : ApplyTransitionInput where
  transactionId := id
  event := .sellerPublish
  actor := { id := some m.id.text, type := .system, role := some "MERCHANT" }

/-- Load for the merchant, then drive the event. -/
def publish (m : MerchantContext) (id : Uuid) : Program Reply := do
  let _ ← getByIdForMerchant m.id id
  let tx ← core (apply (publication m id))
  pure (.transaction (view env tx))

/-! ## Sellers of a merchant -/

structure CreateSellerDto where
  businessName : String
  email : Option String := none
deriving DecidableEq

/-- The address of a seller who gave none. -/
def sellerEmail (uuid : Uuid) : String := "seller+" ++ uuid.text ++ "@eaas.meduman.local"

/-- `input.email ?? …` -/
def emailOf (dto : CreateSellerDto) : Program String :=
  match dto.email with
  | some email => pure email
  | none => sellerEmail <$> core (Meduman.await .randomUUID)

/-- An account and a profile of the merchant. -/
def createSeller (merchantId : Uuid) (dto : CreateSellerDto) : Program Reply := do
  let email ← emailOf dto
  let id ← core (Meduman.await .randomUUID)
  let user ← await (.userCreate
    { id := id, email := email, fullName := dto.businessName, roleFlags := [.seller],
      merchantId := merchantId })
  let profile ← await (.sellerProfileCreate
    { userId := user.id, businessName := dto.businessName, merchantId := merchantId })
  pure (.sellerCreated user.id profile.2)

def listSellers (merchantId : Uuid) : Program Reply := do
  let rows ← await (.sellerProfileFindMany merchantId)
  pure (.sellers (rows.map sellerView))

def getSeller (merchantId sellerId : Uuid) : Program Reply := do
  sellers (Sellers.assertOwnedSeller merchantId sellerId)
  let profile ← await (.sellerProfileFindUnique sellerId)
  pure (.seller ⟨sellerId, profile.bind Prod.snd, profile.any fun p => settlementReady p.1⟩)

/-- The payout destination of a seller of the merchant, without its codes. -/
def recipient (m : MerchantContext) (id : Uuid) (dto : CreateTransferRecipientDto) : Program Reply := do
  sellers (Sellers.assertOwnedSeller m.id id)
  let profile ← sellers (Sellers.createTransferRecipient id dto)
  pure (.recipient ⟨settlementReady profile, profile.settlementBankCode, profile.settlementAccountName,
    profile.settlementAccountLast4⟩)

/-! ## The webhook endpoint of a merchant -/

def setEndpoint (merchantId : Uuid) (livemode : Bool) (url : String) : Program Reply :=
  match env.refusal url (!livemode) with
  | some message => Prog.throw (.badRequest message)
  | none => do
      let secret ← generateWebhookSecret
      let secretEnc ← encryptSecret env.gcm secret
      let row ← await (.webhookEndpointUpsert
        { merchantId := merchantId, url := url, secretEnc := secretEnc, livemode := livemode })
      pure (.endpointSet row.id row.url secret)

def getEndpoint (merchantId : Uuid) : Program Reply := do
  let row ← await (.webhookEndpointFindUnique merchantId)
  pure (.endpoint (row.map WebhookEndpoint.view))

def rotateSecret (merchantId : Uuid) : Program Reply := do
  match ← await (.webhookEndpointFindUnique merchantId) with
  | none => Prog.throw (.notFound "No webhook endpoint configured")
  | some _ => do
      let secret ← generateWebhookSecret
      let secretEnc ← encryptSecret env.gcm secret
      await (.webhookEndpointUpdate merchantId secretEnc)
      pure (.rotated secret)

def disable (merchantId : Uuid) : Program Reply := do
  await (.webhookEndpointDisable merchantId)
  pure .disabled

structure ListEventsDto where
  status : Option OutboundEventStatus := none
  cursor : Option Uuid := none
  limit : Option Nat := none
deriving DecidableEq

def listEvents (merchantId : Uuid) (q : ListEventsDto) : Program Reply := do
  let take := q.limit.getD 20
  let rows ← await (.outboundEventFindMany merchantId q.status (take + 1) q.cursor)
  pure (.events (toPage Outbound.OutboundEvent.id eventView take rows))

/-! ## Requests of the API -/

inductive Route
  | createTransaction (dto : CreateV1TransactionDto)
  | listTransactions (q : ListV1TransactionsDto)
  | getTransaction (id : Uuid)
  | publish (id : Uuid)
  | createSeller (dto : CreateSellerDto)
  | listSellers
  | getSeller (id : Uuid)
  | recipient (id : Uuid) (dto : CreateTransferRecipientDto)
  | setEndpoint (url : String)
  | getEndpoint
  | rotateSecret
  | disable
  | listEvents (q : ListEventsDto)

/-- The validation of a request; that of a new transaction is with its draft. -/
def Route.valid : Route → Bool
  | listTransactions q => limitValid q.limit
  | createSeller dto => dto.businessName.length ≤ 120 && dto.email.all env.isEmail
  | recipient _ dto => dto.valid
  | setEndpoint url => env.isUrl url && url.length ≤ 500
  | listEvents q => limitValid q.limit
  | _ => true

/-- The handler of a request. -/
def handle (m : MerchantContext) : Route → Program Reply
  | .createTransaction dto => createTransaction env m dto
  | .listTransactions q => listTransactions env m q
  | .getTransaction id => getTransaction env m id
  | .publish id => publish env m id
  | .createSeller dto => createSeller m.id dto
  | .listSellers => listSellers m.id
  | .getSeller id => getSeller m.id id
  | .recipient id dto => recipient m id dto
  | .setEndpoint url => setEndpoint env m.id m.livemode url
  | .getEndpoint => getEndpoint m.id
  | .rotateSecret => rotateSecret env m.id
  | .disable => disable m.id
  | .listEvents q => listEvents m.id q

/-- The guard, the validation, and the handler. -/
def request (header : Option String) (route : Route) : Program Reply := do
  let m ← canActivate env header
  if !route.valid env then Prog.throw (.badRequest "Bad Request") else handle env m route

/-! ## Administrators -/

def issueKey (merchantId : Uuid) (livemode : Bool) : Program (String × Uuid) := do
  let (plaintext, keyPrefix) ← generateApiKey livemode
  let created ← await (.apiKeyCreate
    { merchantId := merchantId, keyPrefix := keyPrefix, keyHash := env.hashApiKey plaintext,
      livemode := livemode })
  pure (plaintext, created.id)

/-- A merchant starts in test mode. -/
def createMerchant (name : String) : Program (Merchant × String) := do
  let merchant ← await (.merchantCreate name)
  let (apiKey, _) ← issueKey env merchant.id false
  pure (merchant, apiKey)

def revokeKey (merchantId keyId : Uuid) : Program Unit := do
  let now ← core (Meduman.await .now)
  await (.apiKeyRevoke keyId merchantId now)

def setLivemodeEnabled (merchantId : Uuid) (enabled : Bool) : Program Merchant :=
  await (.merchantUpdate merchantId { livemodeEnabled := some enabled })

def setStatus (merchantId : Uuid) (status : MerchantStatus) : Program Merchant :=
  await (.merchantUpdate merchantId { status := some status })

structure UpdateMerchantDto where
  livemodeEnabled : Option Bool := none
  status : Option MerchantStatus := none
deriving DecidableEq

/-- Set what the request gives. -/
def setGiven {α : Type} (value : Option α) (set : α → Program Merchant) : Program Unit :=
  match value with
  | some a => (fun _ => ()) <$> set a
  | none => pure ()

def update (id : Uuid) (dto : UpdateMerchantDto) : Program Unit := do
  setGiven dto.livemodeEnabled (setLivemodeEnabled id)
  setGiven dto.status (setStatus id)

/-! ## The service -/

/-- A request of the API, one of an administrator, or a call of the rest of the system. -/
inductive Call
  | request (header : Option String) (route : Route)
  | createMerchant (name : String)
  | issueKey (merchantId : Uuid) (livemode : Option Bool)
  | revokeKey (merchantId keyId : Uuid)
  | update (id : Uuid) (dto : UpdateMerchantDto)
  | core (call : Meduman.Call)
  | onboard (call : Sellers.Call)
  | outbound (call : Outbound.Call)

/-- The transactions and the payout destinations of merchants come by the requests of the API. -/
def admits (c : Call) (w : World) : Bool :=
  match c with
  | .createMerchant name => name.length ≤ 120
  | .core (.create (.v1 ..)) => false
  | .core call => Meduman.admits env.core call w.core
  | .onboard call =>
      (match call.entrypoint with
        | .v1 _ => false
        | _ => true) && Sellers.admits call w.sellers
  | .outbound call => Outbound.admits call w.outbound
  | _ => true

/-- The program of a call. -/
def code : Call → Program Reply
  | .request header route => request env header route
  | .createMerchant name => (fun r => Reply.merchantCreated r.1 r.2) <$> createMerchant env name
  | .issueKey merchantId livemode =>
      (fun r => Reply.keyIssued r.1 r.2) <$> issueKey env merchantId (livemode.getD false)
  | .revokeKey merchantId keyId => (fun _ => Reply.done) <$> revokeKey merchantId keyId
  | .update id dto => (fun _ => Reply.done) <$> update id dto
  | .core call => Reply.core <$> core (Meduman.code env.core call)
  | .onboard call => Reply.onboarded <$> sellers (Sellers.code call)
  | .outbound call => Reply.outbound <$> outbound (Outbound.code env.outbound call)

/-- The core moves on its own, somebody signs up, the outbox has an event the core recorded, and the queue
finds that a worker is gone. -/
inductive Move
  | core (m : Meduman.Move)
  | signUp (account : Account) (roleFlags : List UserRole)
  | record (eventId : Uuid)
  | stall (eventId : Uuid)

/-- The account of a merchant's seller is never merged into another. -/
def drift (m : Move) (w : World) : Option World :=
  match m with
  | .core m =>
      let allowed := match m with
        | .merge source _ => w.accounts.rows.all fun a => a.id != source || a.merchantId.isNone
        | _ => true
      if allowed then (Meduman.drift m w.core).map fun core => { w with core := core } else none
  | .signUp account roleFlags =>
      if account.merchantId.isSome then none
      else match w.core.users.create ⟨account.id, roleFlags⟩, w.accounts.create account with
        | some users, some accounts =>
            some { w with core := { w.core with users := users }, accounts := accounts }
        | _, _ => none
  | .record eventId => do
      let e ← w.core.outboundEvents.find? fun e => e.id == eventId
      let outboundEvents ← w.outboundEvents.create
        { id := e.id, merchantId := e.merchantId, type := e.type, payload := e.payload, status := .pending,
          attemptCount := 0, lastError := none, deliveredAt := none, createdAt := w.core.clock }
      pure { w with outboundEvents := outboundEvents }
  | .stall eventId => some { w with jobs := w.jobs.stall Outbound.maxStalledCount eventId }

/-- Any number of calls, in any company. -/
abbrev service : Service Op.Ans Err where
  World := World
  Choice := Choice
  Move := Move
  Call := Call
  Reply := Reply
  exec := exec
  drift := drift
  admits := admits env
  code := code env

end Meduman.Merchants
