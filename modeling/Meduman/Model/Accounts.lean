import Meduman.Model.Chat

/-!
# Accounts and their merge

The rows that belong to a user, and how a chat-born account is absorbed into another.

* `Linking.World` : the users, and every table that refers to one
* `Linking.detectCollision`, `Linking.hasInFlightPayout` : the guards of a merge
* `Linking.merge` : move everything, fold the profiles, leave a tombstone
-/

set_option autoImplicit false

namespace Meduman.Linking

open Effect Chat

inductive UserStatus
  | active | suspended | deactivated
deriving DecidableEq, Repr

inductive ChatLinkRequestStatus
  | pending | completed | pendingReview | rejected | expired | cancelled
deriving DecidableEq, Repr

def ChatLinkRequestStatus.text : ChatLinkRequestStatus → String
  | pending => "PENDING"
  | completed => "COMPLETED"
  | pendingReview => "PENDING_REVIEW"
  | rejected => "REJECTED"
  | expired => "EXPIRED"
  | cancelled => "CANCELLED"

/-- A collision that refuses a merge; also the reason kept with a parked request. -/
inductive MergeCollisionKind
  | sellerProfileConflict | selfTransactionConflict
deriving DecidableEq, Repr

def MergeCollisionKind.text : MergeCollisionKind → String
  | sellerProfileConflict => "SELLER_PROFILE_CONFLICT"
  | selfTransactionConflict => "SELF_TRANSACTION_CONFLICT"

/-! ## Rows -/

structure User where
  id : Uuid
  email : String
  phone : Option String
  roleFlags : List UserRole
  merchantId : Option Uuid
  status : UserStatus
  mergedIntoUserId : Option Uuid
  mergedAt : Option Int
deriving DecidableEq

instance : Constrained User where
  clash a b := a.id == b.id || a.email == b.email
  clash_comm a b := by rw [Bool.beq_comm, @Bool.beq_comm _ _ _ a.email]

/-- `channelLinks` is the text of a JSON object. -/
structure Profile where
  userId : Uuid
  country : Option String
  city : Option String
  avatarUrl : Option String
  bio : Option String
  channelLinks : Option String
deriving DecidableEq

instance : Constrained Profile where
  clash a b := a.userId == b.userId
  clash_comm _ _ := Bool.beq_comm

structure ChatIdentity where
  id : Uuid
  platform : ChatPlatform
  platformUserId : String
  userId : Uuid
  displayName : Option String
deriving DecidableEq

instance : Constrained ChatIdentity where
  clash a b := a.id == b.id || (a.platform == b.platform && a.platformUserId == b.platformUserId)
  clash_comm a b := by
    rw [Bool.beq_comm, @Bool.beq_comm _ _ _ a.platform, @Bool.beq_comm _ _ _ a.platformUserId]

structure ChatLinkRequest where
  id : Uuid
  codeHash : String
  targetUserId : Uuid
  platform : Option ChatPlatform
  platformUserId : Option String
  chatIdentityId : Option Uuid
  sourceUserId : Option Uuid
  status : ChatLinkRequestStatus
  conflictReason : Option MergeCollisionKind
  attemptCount : Nat
  expiresAt : Int
  consumedAt : Option Int
  resolvedAt : Option Int
  resolvedBy : Option Uuid
deriving DecidableEq

instance : Constrained ChatLinkRequest where
  clash a b := a.id == b.id || a.codeHash == b.codeHash
  clash_comm a b := by rw [Bool.beq_comm, @Bool.beq_comm _ _ _ a.codeHash]

/-- An invoice with its buyer. -/
structure Invoice extends Meduman.Invoice where
  buyerId : Option Uuid
deriving DecidableEq

instance : Constrained Invoice where
  clash a b := Constrained.clash a.toInvoice b.toInvoice
  clash_comm a b := Constrained.clash_comm a.toInvoice b.toInvoice

inductive NotificationChannel
  | email | sms | inApp | whatsapp | telegram | instagram | messenger
deriving DecidableEq, Repr

inductive NotificationStatus
  | pending | sent | failed
deriving DecidableEq, Repr

/-- `payload` is a JSON object, by its fields. -/
structure Notification where
  id : Uuid
  userId : Uuid
  channel : NotificationChannel
  templateKey : String
  payload : Option (List (String × Scalar))
  status : NotificationStatus
deriving DecidableEq

instance : Constrained Notification where
  clash a b := a.id == b.id
  clash_comm _ _ := Bool.beq_comm

structure Evidence where
  id : Uuid
  transactionId : Uuid
  disputeId : Option Uuid
  uploadedBy : Uuid
  storagePath : String
  mimeType : String
  sizeBytes : Int
deriving DecidableEq

instance : Constrained Evidence where
  clash a b := a.id == b.id
  clash_comm _ _ := Bool.beq_comm

/-- What a completed merge moved. -/
structure MergeReport where
  chatIdentities : Nat
  transactionsSold : Nat
  transactionsBought : Nat
  payouts : Nat
  invoicesSold : Nat
  invoicesBought : Nat
  notifications : Nat
  disputes : Nat
  evidence : Nat
  profileMerged : Bool
  sellerProfileMoved : Bool
deriving DecidableEq

/-- An audit row; a merge spreads its report over the metadata. -/
structure AuditRow extends AuditLog where
  report : Option MergeReport := none
deriving DecidableEq

/-- A Supabase auth user; `chat` is `user_metadata.source === 'chat'`. -/
structure AuthUser where
  id : Uuid
  email : String
  chat : Bool
deriving DecidableEq

instance : Constrained AuthUser where
  clash a b := a.id == b.id || a.email == b.email
  clash_comm a b := by rw [Bool.beq_comm, @Bool.beq_comm _ _ _ a.email]

structure World where
  clock : Int
  authUsers : Table AuthUser
  users : Table User
  profiles : Table Profile
  sellerProfiles : Table SellerProfile
  chatIdentities : Table ChatIdentity
  linkRequests : Table ChatLinkRequest
  transactions : Table Transaction
  payouts : Table Payout
  invoices : Table Invoice
  notifications : Table Notification
  disputes : Table Dispute
  evidence : Table Evidence
  timeline : List TimelineEvent
  auditLogs : List AuditRow

def World.initial : World where
  clock := 0
  authUsers := .empty
  users := .empty
  profiles := .empty
  sellerProfiles := .empty
  chatIdentities := .empty
  linkRequests := .empty
  transactions := .empty
  payouts := .empty
  invoices := .empty
  notifications := .empty
  disputes := .empty
  evidence := .empty
  timeline := []
  auditLogs := []

/-! ## Errors -/

inductive Err
  | notFound (message : String)
  | conflict (message : String)
  | internal (message : String)
  | linkMergeCollision (kind : MergeCollisionKind)
  | linkMergeInFlight
  | prisma (code : String) (message : String)
deriving DecidableEq

def uniqueViolation : Err := .prisma "P2002" "Unique constraint failed"

def recordNotFound : Err := .prisma "P2025" "No record was found"

/-! ## The guards -/

def isOf (userId : Uuid) (p : SellerProfile) : Bool := p.userId == userId

/-- The two are seller and buyer, in either order. -/
def joins (a b sellerId : Uuid) (buyerId : Option Uuid) : Bool :=
  sellerId == a && buyerId == some b || sellerId == b && buyerId == some a

/-- `NON_TERMINAL_PAYOUT` -/
def nonTerminalPayout : PayoutStatus → Bool
  | .pending | .processing => true
  | _ => false

def inFlightOf (userIds : List Uuid) (p : Payout) : Bool :=
  userIds.contains p.sellerId && nonTerminalPayout p.status

/-- The collision the merge's own transaction finds: two seller profiles first, then a transaction, then
an invoice between the two. -/
def detectCollision (sourceUserId targetUserId : Uuid) (w : World) : Option MergeCollisionKind :=
  if (w.sellerProfiles.find (isOf sourceUserId)).isSome &&
      (w.sellerProfiles.find (isOf targetUserId)).isSome then some .sellerProfileConflict
  else if (w.transactions.find fun t =>
      joins sourceUserId targetUserId t.sellerId t.buyerId).isSome then
    some .selfTransactionConflict
  else if (w.invoices.find fun i =>
      joins sourceUserId targetUserId i.sellerId i.buyerId).isSome then
    some .selfTransactionConflict
  else none

def hasInFlightPayout (userIds : List Uuid) (w : World) : Bool :=
  (w.payouts.find (inFlightOf userIds)).isSome

/-! ## The merge -/

inductive KeepProfile
  | target | source
deriving DecidableEq, Repr

/-- The collisions an admin may rule acceptable. -/
inductive OverrideCollision
  | sellerProfileConflict
deriving DecidableEq, Repr

def OverrideCollision.kind : OverrideCollision → MergeCollisionKind
  | sellerProfileConflict => .sellerProfileConflict

structure MergeOptions where
  keepProfile : Option KeepProfile := none
  overrideCollision : Option OverrideCollision := none
deriving DecidableEq

/-- `updateMany`, with the number of rows it selected. -/
def updateMany {α : Type} [Constrained α] (t : Table α) (selects : α → Bool) (f : α → α) :
    Except Err (Nat × Table α) :=
  match t.update selects f with
  | none => .error uniqueViolation
  | some t' => .ok (t.count selects, t')

/-- Move or fold the 1:1 profile. -/
def mergeProfile (sourceUserId targetUserId : Uuid) (keepProfile : Option KeepProfile)
    (profiles : Table Profile) : Except Err (Bool × Table Profile) :=
  match profiles.find fun p => p.userId == sourceUserId with
  | none => .ok (false, profiles)
  | some source =>
      match profiles.find fun p => p.userId == targetUserId with
      | none => do
          let moved ← updateMany profiles (fun p => p.userId == sourceUserId)
            fun p => { p with userId := targetUserId }
          .ok (true, moved.2)
      | some target => do
          let winner := if keepProfile = some .source then source else target
          let loser := if keepProfile = some .source then target else source
          let channelLinks := winner.channelLinks.or loser.channelLinks
          let folded ← updateMany profiles (fun p => p.userId == targetUserId) fun p =>
            { p with
              country := winner.country.or loser.country
              city := winner.city.or loser.city
              avatarUrl := winner.avatarUrl.or loser.avatarUrl
              bio := winner.bio.or loser.bio
              channelLinks := channelLinks.or p.channelLinks }
          .ok (true, folded.2.delete fun p => p.userId == sourceUserId)

/-- The 1:1 seller profile moves, or is discarded where the target has one. -/
def mergeSellerProfile (sourceUserId targetUserId : Uuid) (sellerProfiles : Table SellerProfile) :
    Except Err (Bool × Table SellerProfile) :=
  match sellerProfiles.find (isOf sourceUserId) with
  | none => .ok (false, sellerProfiles)
  | some _ =>
      match sellerProfiles.find (isOf targetUserId) with
      | some _ => .ok (false, sellerProfiles.delete (isOf sourceUserId))
      | none => do
          let moved ← updateMany sellerProfiles (isOf sourceUserId)
            fun p => { p with userId := targetUserId }
          .ok (true, moved.2)

/-- The target keeps its own values; the source fills gaps and becomes a tombstone. -/
def mergeUsers (source target : User) (now : Int) (users : Table User) :
    Except Err (Table User) := do
  let filled ← updateMany users (fun u => u.id == target.id) fun u =>
    { u with
      roleFlags := (target.roleFlags ++ source.roleFlags).eraseDups
      phone := (truthy (target.phone.or source.phone)).or u.phone }
  let buried ← updateMany filled.2 (fun u => u.id == source.id) fun u =>
    { u with
      status := .deactivated
      mergedIntoUserId := some target.id
      mergedAt := some now }
  .ok buried.2

def mergeAudit (sourceUserId targetUserId : Uuid) (report : MergeReport) : AuditRow where
  actorId := some targetUserId.text
  actorType := .user
  action := "chat.account_linked"
  targetType := "User"
  targetId := some targetUserId.text
  reason := none
  metadata := [("sourceUserId", .str sourceUserId.text)]
  report := some report

/-- Absorb one user into another, in one transaction: everything moves, or nothing does. -/
def merge (sourceUserId targetUserId : Uuid) (opts : MergeOptions) (w : World) :
    Except Err (MergeReport × World) :=
  let collision := detectCollision sourceUserId targetUserId w
  if collision.isSome && collision != opts.overrideCollision.map OverrideCollision.kind then
    .error (.linkMergeCollision (collision.getD .selfTransactionConflict))
  else if hasInFlightPayout [sourceUserId, targetUserId] w then .error .linkMergeInFlight
  else
    match w.users.find fun u => u.id == sourceUserId with
    | none => .error recordNotFound
    | some source =>
        match w.users.find fun u => u.id == targetUserId with
        | none => .error recordNotFound
        | some target => do
            let identities ← updateMany w.chatIdentities (fun i => i.userId == sourceUserId)
              fun i => { i with userId := targetUserId }
            let sold ← updateMany w.transactions (fun t => t.sellerId == sourceUserId)
              fun t => { t with sellerId := targetUserId }
            let bought ← updateMany sold.2 (fun t => t.buyerId == some sourceUserId)
              fun t => { t with buyerId := some targetUserId }
            let payouts ← updateMany w.payouts (fun p => p.sellerId == sourceUserId)
              fun p => { p with sellerId := targetUserId }
            let invoicesSold ← updateMany w.invoices (fun i => i.sellerId == sourceUserId)
              fun i => { i with sellerId := targetUserId }
            let invoicesBought ← updateMany invoicesSold.2 (fun i => i.buyerId == some sourceUserId)
              fun i => { i with buyerId := some targetUserId }
            let notifications ← updateMany w.notifications (fun n => n.userId == sourceUserId)
              fun n => { n with userId := targetUserId }
            let disputes ← updateMany w.disputes (fun d => d.openedBy == sourceUserId)
              fun d => { d with openedBy := targetUserId }
            let evidence ← updateMany w.evidence (fun e => e.uploadedBy == sourceUserId)
              fun e => { e with uploadedBy := targetUserId }
            let profiles ← mergeProfile sourceUserId targetUserId opts.keepProfile w.profiles
            let sellerProfiles ← mergeSellerProfile sourceUserId targetUserId w.sellerProfiles
            let users ← mergeUsers source target w.clock w.users
            let report : MergeReport :=
              { chatIdentities := identities.1
                transactionsSold := sold.1
                transactionsBought := bought.1
                payouts := payouts.1
                invoicesSold := invoicesSold.1
                invoicesBought := invoicesBought.1
                notifications := notifications.1
                disputes := disputes.1
                evidence := evidence.1
                profileMerged := profiles.1
                sellerProfileMoved := sellerProfiles.1 }
            .ok (report, { w with
              users := users
              profiles := profiles.2
              sellerProfiles := sellerProfiles.2
              chatIdentities := identities.2
              transactions := bought.2
              payouts := payouts.2
              invoices := invoicesBought.2
              notifications := notifications.2
              disputes := disputes.2
              evidence := evidence.2
              auditLogs := w.auditLogs ++ [mergeAudit sourceUserId targetUserId report] })

end Meduman.Linking
