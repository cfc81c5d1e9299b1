import Meduman.Effect.Backend
import Meduman.Effect.Policy
import Meduman.Model.Transactions

/-!
# Sellers and their payout destination

A seller onboards the account that released funds are sent to, on the web, through a merchant or in
chat.

* `RecipientUpdate` : what onboarding stores
* `Sellers.createTransferRecipient` : resolve the account with its bank, create the recipient, store it
* `Sellers.service` : any number of onboardings, from all three sides
-/

set_option autoImplicit false

namespace Meduman

/-- The destination that onboarding stores; of the account number only the last digits. -/
structure RecipientUpdate where
  providerRecipientCode : String
  settlementBankCode : String
  settlementAccountLast4 : String
  settlementAccountName : String
deriving DecidableEq

def RecipientUpdate.apply (d : RecipientUpdate) (p : SellerProfile) : SellerProfile :=
  { p with
    providerRecipientCode := some d.providerRecipientCode
    settlementBankCode := some d.settlementBankCode
    settlementAccountLast4 := some d.settlementAccountLast4
    settlementAccountName := some d.settlementAccountName
    settlementBankVerified := true }

/-- `accountNumber.slice(-4)` -/
def lastFour (accountNumber : String) : String :=
  String.ofList (accountNumber.toList.drop (accountNumber.length - 4))

/-- The audit row of an onboarding; the identifier of the profile's row is left out. -/
def recipientAudit (userId : Uuid) (bankCode accountNumber accountName : String) : AuditLog where
  actorId := some userId.text
  actorType := .user
  action := "seller.transfer_recipient_created"
  targetType := "SellerProfile"
  targetId := none
  reason := none
  metadata := [("bankCode", .str bankCode), ("accountLast4", .str (lastFour accountNumber)),
    ("accountName", .str accountName)]

end Meduman

namespace Meduman.Sellers

open Effect

/-! ## Rows and operations -/

/-- A user and the merchant that opened the account, if any. -/
structure Account where
  id : Uuid
  merchantId : Option Uuid
deriving DecidableEq

instance : Constrained Account where
  clash a b := a.id == b.id
  clash_comm _ _ := Bool.beq_comm

structure World where
  users : Table Account
  sellerProfiles : Table SellerProfile
  auditLogs : List AuditLog

def World.initial : World where
  users := .empty
  sellerProfiles := .empty
  auditLogs := []

inductive Err
  | notFound (message : String)
  | conflict (message : String)
  | paystack (message : String)
  | prisma (code message : String)
deriving DecidableEq

inductive Op
  | userFindOwned (merchantId sellerId : Uuid)
  | sellerProfileFindUnique (userId : Uuid)
  | sellerProfileCreate (userId : Uuid)
  | resolveAccount (accountNumber bankCode : String)
  | createTransferRecipient (name accountNumber bankCode : String)
  | sellerProfileUpdate (userId : Uuid) (data : RecipientUpdate)
  | auditLogCreate (data : AuditLog)
deriving DecidableEq

@[reducible] def Op.Ans : Op → Type
  | userFindOwned .. => Option Account
  | sellerProfileFindUnique _ => Option SellerProfile
  | sellerProfileCreate _ => SellerProfile
  | resolveAccount .. => String
  | createTransferRecipient .. => String
  | sellerProfileUpdate .. => SellerProfile
  | auditLogCreate _ => Unit

abbrev Program := Prog Op.Ans Err

abbrev await (op : Op) : Program op.Ans := Prog.perform op

def isOf (userId : Uuid) (p : SellerProfile) : Bool := p.userId == userId

/-- `sellerProfile.create` -/
def createProfile (userId : Uuid) (w : World) : Except Err SellerProfile × World :=
  if (w.users.find fun u => u.id == userId).isNone then
    (.error (.prisma "P2003" "Foreign key constraint failed"), w)
  else match w.sellerProfiles.create { userId := userId } with
    | none => (.error (.prisma "P2002" "Unique constraint failed"), w)
    | some sellerProfiles => (.ok { userId := userId }, { w with sellerProfiles := sellerProfiles })

/-- `sellerProfile.update` -/
def updateProfile (userId : Uuid) (d : RecipientUpdate) (w : World) :
    Except Err SellerProfile × World :=
  match w.sellerProfiles.find (isOf userId) with
  | none => (.error (.prisma "P2025" "Record to update not found"), w)
  | some p =>
      match w.sellerProfiles.update (isOf userId) d.apply with
      | none => (.error (.prisma "P2002" "Unique constraint failed"), w)
      | some sellerProfiles => (.ok (d.apply p), { w with sellerProfiles := sellerProfiles })

/-- What a served operation answers, and the world it leaves; the bank and the provider answer with the
text of the supply. -/
def effect (s : String) (w : World) : (op : Op) → Except Err op.Ans × World
  | .userFindOwned merchantId sellerId =>
      (.ok (w.users.find fun u => u.id == sellerId && u.merchantId == some merchantId), w)
  | .sellerProfileFindUnique userId => (.ok (w.sellerProfiles.find (isOf userId)), w)
  | .sellerProfileCreate userId => createProfile userId w
  | .resolveAccount .. => (.ok s, w)
  | .createTransferRecipient .. => (.ok s, w)
  | .sellerProfileUpdate userId d => updateProfile userId d w
  | .auditLogCreate d => (.ok (), { w with auditLogs := w.auditLogs ++ [d] })

/-- A recipient code is a text that is not empty. -/
def Op.fits (s : String) (_ : World) : Op → Bool
  | createTransferRecipient .. => s ≠ ""
  | _ => true

def Op.writes : Op → Bool
  | sellerProfileCreate _ | createTransferRecipient .. | sellerProfileUpdate .. | auditLogCreate _ =>
      true
  | _ => false

def Op.fault (message : String) : Op → Err
  | resolveAccount .. | createTransferRecipient .. => .paystack message
  | _ => .prisma "P1001" message

/-- The database, the bank and the payment provider. -/
def backend : Backend Op.Ans Err World String where
  effect := effect
  fits := Op.fits
  writes := Op.writes
  fallible := fun _ => true
  fault := Op.fault

/-- Someone signs up, or a profile is opened elsewhere. -/
inductive Move
  | signUp (user : Account)
  | openProfile (userId : Uuid)

def drift (m : Move) (w : World) : Option World :=
  match m with
  | .signUp user => (w.users.create user).map fun users => { w with users := users }
  | .openProfile userId =>
      (w.sellerProfiles.create { userId := userId }).map fun sellerProfiles =>
        { w with sellerProfiles := sellerProfiles }

/-! ## Onboarding -/

/-- Load the seller profile, or create an empty one. -/
def getOrCreate (userId : Uuid) : Program SellerProfile := do
  match ← await (.sellerProfileFindUnique userId) with
  | some existing => pure existing
  | none => await (.sellerProfileCreate userId)

structure CreateTransferRecipientDto where
  bankCode : String
  accountNumber : String
deriving DecidableEq

/-- `/^\d{3,6}$/` and `/^\d{10}$/` -/
def CreateTransferRecipientDto.valid (dto : CreateTransferRecipientDto) : Bool :=
  dto.bankCode.toList.all Char.isDigit && 3 ≤ dto.bankCode.length && dto.bankCode.length ≤ 6 &&
    dto.accountNumber.toList.all Char.isDigit && dto.accountNumber.length == 10

/-- Onboard the seller's payout destination; a second one is refused. -/
def createTransferRecipient (userId : Uuid) (dto : CreateTransferRecipientDto) :
    Program SellerProfile := do
  let profile ← getOrCreate userId
  if (truthy profile.providerRecipientCode).isSome then
    Prog.throw (.conflict "A payout destination already exists for this seller")
  else do
    let accountName ← await (.resolveAccount dto.accountNumber dto.bankCode)
    let recipientCode ← await (.createTransferRecipient accountName dto.accountNumber dto.bankCode)
    let updated ← await (.sellerProfileUpdate userId
      { providerRecipientCode := recipientCode
        settlementBankCode := dto.bankCode
        settlementAccountLast4 := lastFour dto.accountNumber
        settlementAccountName := accountName })
    await (.auditLogCreate (recipientAudit userId dto.bankCode dto.accountNumber accountName))
    pure updated

/-- A merchant's sellers are its own. -/
def assertOwnedSeller (merchantId sellerId : Uuid) : Program Unit := do
  match ← await (.userFindOwned merchantId sellerId) with
  | none => Prog.throw (.notFound ("Seller " ++ sellerId.text ++ " not found"))
  | some _ => pure ()

/-! ## The service -/

/-- Where an onboarding comes from. -/
inductive Entrypoint
  | web
  | v1 (merchantId : Uuid)
  | chat
deriving DecidableEq

structure Call where
  entrypoint : Entrypoint
  seller : Uuid
  dto : CreateTransferRecipientDto
deriving DecidableEq

/-- Only chat passes on what was typed. -/
def admits (c : Call) (_ : World) : Bool :=
  match c.entrypoint with
  | .chat => true
  | _ => c.dto.valid

def code (c : Call) : Program SellerProfile :=
  match c.entrypoint with
  | .v1 merchantId => do
      assertOwnedSeller merchantId c.seller
      createTransferRecipient c.seller c.dto
  | _ => createTransferRecipient c.seller c.dto

/-- Any number of onboardings. -/
abbrev service : Service Op.Ans Err where
  World := World
  Choice := Fate String
  Move := Move
  Call := Call
  Reply := SellerProfile
  exec := backend.exec
  drift := drift
  admits := admits
  code := code

/-- The configurations onboarding can reach. -/
def Reachable (x : Config service) : Prop := Reaches Guard.free ⟨World.initial, []⟩ x

end Meduman.Sellers
