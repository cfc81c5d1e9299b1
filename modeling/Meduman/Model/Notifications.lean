import Meduman.Model.Dialog
import Meduman.Text.Replace

/-!
# Outbound messages

A one-time code or an invoice on its way to its buyer, whose row it leaves; the recipient of a code, as
WhatsApp wants it; and the texts of a provider that are safe to throw or log.

* `Notify.deliverOtpCode`, `Notify.deliverInvoice` : the deliveries of the worker
* `Notify.normalizeMsisdn` : a stored phone number in E.164 digits, or a refusal
* `Notify.scrub` : a provider's text without the code and the access token
-/

set_option autoImplicit false

namespace Meduman.Notify

open Effect
open Chat (ChatPlatform)
open Dialog (trim)
open Linking (isSpace ChatIdentity Notification NotificationChannel NotificationStatus)

/-! ## Deliveries -/

structure NotificationCreate where
  userId : Uuid
  channel : NotificationChannel
  templateKey : String
  payload : List (String × Scalar)
  status : NotificationStatus

def NotificationCreate.row (d : NotificationCreate) (id : Uuid) : Notification where
  id := id
  userId := d.userId
  channel := d.channel
  templateKey := d.templateKey
  payload := some d.payload
  status := d.status

structure OutboundMessage where
  channel : NotificationChannel
  recipient : String
  templateKey : String
  data : List (String × Scalar)

structure ChatOutboundJobData where
  userId : Uuid
  templateKey : String
  data : List (String × Scalar)

/-- What a delivery awaits; a transaction comes with the phone of its buyer. -/
inductive Op
  | transactionFindUnique (id : Uuid)
  | invoiceFindUnique (id : Uuid)
  | chatIdentityFindFirst (userId : Uuid)
  | notificationCreate (data : NotificationCreate)
  | notificationUpdate (id : Uuid) (status : NotificationStatus)
  | enqueueChatOutbound (data : ChatOutboundJobData)
  | send (message : OutboundMessage)

@[reducible] def Op.Ans : Op → Type
  | transactionFindUnique _ => Option (Transaction × Option String)
  | invoiceFindUnique _ => Option Linking.Invoice
  | chatIdentityFindFirst _ => Option ChatIdentity
  | notificationCreate _ => Notification
  | notificationUpdate .. => Unit
  | enqueueChatOutbound _ => Unit
  | send _ => Unit

inductive Err
  | prisma (code message : String)
  | plain (message : String)
deriving DecidableEq

abbrev Program := Prog Op.Ans Err

abbrev await (op : Op) : Program op.Ans := Prog.perform op

/-- The deliveries see the world of the dialog. -/
abbrev World := Dialog.World

/-- The transaction, with the phone of its buyer. -/
def withBuyer (w : World) (t : Transaction) : Transaction × Option String :=
  (t, (w.accounts.users.find fun u => t.buyerId == some u.id).bind Linking.User.phone)

/-- What a served operation answers, and the world it leaves; nothing here reads the outbound queue. -/
def effect (id : Uuid) (w : World) : (op : Op) → Except Err op.Ans × World
  | .transactionFindUnique id =>
      (.ok ((w.core.transactions.find fun t => t.id == id).map (withBuyer w)), w)
  | .invoiceFindUnique id => (.ok (w.linking.invoices.find fun i => i.id == id), w)
  | .chatIdentityFindFirst userId =>
      (.ok (w.accounts.chatIdentities.find fun i => i.userId == userId), w)
  | .notificationCreate d =>
      match w.accounts.notifications.create (d.row id) with
      | none => (.error (.prisma "P2002" "Unique constraint failed"), w)
      | some notifications =>
          (.ok (d.row id), { w with accounts := { w.accounts with notifications := notifications } })
  | .notificationUpdate id status =>
      match w.accounts.notifications.find fun n => n.id == id with
      | none => (.error (.prisma "P2025" "Record to update not found"), w)
      | some _ =>
          match w.accounts.notifications.update (fun n => n.id == id)
              fun n => { n with status := status } with
          | none => (.error (.prisma "P2002" "Unique constraint failed"), w)
          | some notifications =>
              (.ok (), { w with accounts := { w.accounts with notifications := notifications } })
  | .enqueueChatOutbound _ => (.ok (), w)
  | .send _ => (.ok (), w)

def Op.fits (id : Uuid) (w : World) : Op → Bool
  | notificationCreate _ => w.accounts.notifications.rows.all fun n => n.id != id
  | _ => true

def Op.writes : Op → Bool
  | notificationCreate _ | notificationUpdate .. | enqueueChatOutbound _ | send _ => true
  | _ => false

def Op.fault (message : String) : Op → Err
  | enqueueChatOutbound _ | send _ => .plain message
  | _ => .prisma "P1001" message

/-- The database, the chat queue and the transport. -/
def backend : Backend Op.Ans Err World Uuid where
  effect := effect
  fits := Op.fits
  writes := Op.writes
  fallible := fun _ => true
  fault := Op.fault

/-- `PLATFORM_CHANNEL` -/
def platformChannel : ChatPlatform → NotificationChannel
  | .telegram => .telegram
  | .whatsapp => .whatsapp
  | .instagram => .instagram
  | .messenger => .messenger
  | .x => .inApp

/-- `OTP_TEMPLATE_KEY` -/
def otpTemplateKey : String := "otp.delivery_confirmation"

/-- The row of a code's delivery says nothing of the code. -/
def otpNotification (data : Otp.OtpNotificationJobData) (buyerId : Uuid) (channel : NotificationChannel)
    (status : NotificationStatus) : NotificationCreate where
  userId := buyerId
  channel := channel
  templateKey := otpTemplateKey
  payload := [("transactionId", .str data.transactionId.text), ("otpId", .str data.otpId.text),
    ("purpose", .str data.purpose.text)]
  status := status

def otpVariables (data : Otp.OtpNotificationJobData) : List (String × Scalar) :=
  [("code", .str data.code), ("transactionId", .str data.transactionId.text)]

/-- Send the code by text message, and record how that went. -/
def sendOtpCode (data : Otp.OtpNotificationJobData) (notificationId : Uuid) (phone : String) :
    Program Unit :=
  Prog.tryCatch (do
    await (.send ⟨.sms, phone, otpTemplateKey, otpVariables data⟩)
    await (.notificationUpdate notificationId .sent)) fun e => do
    await (.notificationUpdate notificationId .failed)
    Prog.throw e

/-- Send an issued code to the buyer, by chat where they have one. -/
def deliverOtpCode (data : Otp.OtpNotificationJobData) : Program Unit := do
  match ← await (.transactionFindUnique data.transactionId) with
  | none => pure ()
  | some (tx, phone) =>
    match tx.buyerId with
    | none => pure ()
    | some buyerId =>
      match ← await (.chatIdentityFindFirst buyerId) with
      | some chatIdentity => do
        let _ ← await (.notificationCreate
          (otpNotification data buyerId (platformChannel chatIdentity.platform) .sent))
        await (.enqueueChatOutbound ⟨buyerId, otpTemplateKey, otpVariables data⟩)
      | none => do
        let notification ← await (.notificationCreate (otpNotification data buyerId .sms .pending))
        match truthy phone with
        | none => await (.notificationUpdate notification.id .failed)
        | some phone => sendOtpCode data notification.id phone

/-- What a delivered invoice says. -/
def invoiceVariables (invoice : Linking.Invoice) : List (String × Scalar) :=
  [("invoiceId", .str invoice.id.text), ("number", .str invoice.number),
    ("total", .int invoice.total), ("publicViewId", .str invoice.publicViewId)]

/-- Mail an invoice; a buyer who is a user gets a row. -/
def mailInvoice (invoice : Linking.Invoice) : Program Unit :=
  match truthy invoice.buyerEmail with
  | none => pure ()
  | some email => do
    await (.send ⟨.email, email, "invoice.sent", invoiceVariables invoice⟩)
    match invoice.buyerId with
    | none => pure ()
    | some buyerId => do
      let _ ← await (.notificationCreate
        { userId := buyerId, channel := .email, templateKey := "invoice.sent",
          payload := invoiceVariables invoice, status := .sent })
      pure ()

/-- Deliver a sent invoice, by chat where its buyer has one. -/
def deliverInvoice (invoiceId : Uuid) : Program Unit := do
  match ← await (.invoiceFindUnique invoiceId) with
  | none => pure ()
  | some invoice =>
    match invoice.buyerId with
    | none => mailInvoice invoice
    | some buyerId =>
      match ← await (.chatIdentityFindFirst buyerId) with
      | some _ => await (.enqueueChatOutbound ⟨buyerId, "invoice.sent", invoiceVariables invoice⟩)
      | none => mailInvoice invoice

/-! ## Phone numbers -/

def minE164Digits : Nat := 8

def maxE164Digits : Nat := 15

def ngCountryCode : List Char := ['2', '3', '4']

def ngNsnLength : Nat := 10

def ngMsisdnLength : Nat := ngCountryCode.length + ngNsnLength

structure UnroutablePhoneNumberError where
  reason : String
deriving DecidableEq

def UnroutablePhoneNumberError.message (e : UnroutablePhoneNumberError) : String :=
  "Unroutable phone number: " ++ e.reason

/-- `/^\+?[0-9\s().-]+$/` -/
def isDialable (s : List Char) : Bool :=
  let rest := if s.head? == some '+' then s.tail else s
  !rest.isEmpty && rest.all fun c =>
    c.isDigit || isSpace c || c == '(' || c == ')' || c == '.' || c == '-'

/-- `/^[789]/` -/
def startsMobile (digits : List Char) : Bool :=
  digits.head?.any fun c => c == '7' || c == '8' || c == '9'

/-- A phone number in E.164 digits without `+`; what cannot be mapped is refused. -/
def normalizeMsisdn (raw : String) (defaultCountryCode : List Char := ngCountryCode) :
    Except UnroutablePhoneNumberError String := do
  let trimmed := (trim raw).toList
  if trimmed.isEmpty then throw ⟨"empty"⟩
  if !isDialable trimmed then throw ⟨"contains non-dialable characters"⟩
  let hadPlus := trimmed.head? == some '+'
  let digits := trimmed.filter Char.isDigit
  if digits.isEmpty then throw ⟨"no digits"⟩
  -- `00` is the international access prefix
  let digits := if !hadPlus && ['0', '0'].isPrefixOf digits then digits.drop 2 else digits
  let digits ←
    if ['0'].isPrefixOf digits then
      if hadPlus then throw ⟨"invalid country code"⟩
      else pure (defaultCountryCode ++ digits.dropWhile (· == '0'))
    else if defaultCountryCode == ngCountryCode && digits.length == ngNsnLength &&
        startsMobile digits then
      pure (ngCountryCode ++ digits)
    else pure digits
  if ngCountryCode.isPrefixOf digits && digits.length != ngMsisdnLength then
    throw ⟨"malformed Nigerian number"⟩
  if digits.length < minE164Digits || digits.length > maxE164Digits then
    throw ⟨"wrong length for E.164"⟩
  pure (String.ofList digits)

/-! ## Texts of a provider -/

/-- A text as JavaScript has it, in UTF-16 code units. -/
abbrev Units := List UInt16

/-- The units of a text in ASCII. -/
def units (s : String) : Units := s.toList.map fun c => c.toNat.toUInt16

def maxErrorText : Nat := 300

def redacted : Units := units "[redacted]"

/-- Replace every occurrence of a secret with a marker. -/
def replaceSecret (text secret : Units) : Units :=
  if secret.isEmpty then text else redacted.intercalate (Text.split secret text)

/-- Clip a provider's text and strip the code and the access token. -/
def scrub (accessToken text code : Units) : Units :=
  replaceSecret (replaceSecret (text.take maxErrorText) code) accessToken

end Meduman.Notify
