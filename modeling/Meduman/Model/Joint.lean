import Meduman.Model.Notifications
import Meduman.Model.System
import Meduman.Model.Web

/-!
# The services on one database

Rows that name a user are written by the core, by the chats and the web, by the onboarding of sellers and by
the deliveries of notifications. Here they run side by side, with the merges.

* `Joint.World`, `Joint.Op` : the database, and every operation on it
* `Joint.Call` : everything that is asked for, by whoever asks
* `Joint.service` : all of it, in any company
-/

set_option autoImplicit false

namespace Meduman.Joint

open Effect

/-- The world of the dialog; it has every table. -/
abbrev World := Dialog.World

inductive Op
  | web (op : Web.Op)
  | notify (op : Notify.Op)

@[reducible] def Op.Ans : Op → Type
  | web op => op.Ans
  | notify op => op.Ans

inductive Err
  | web (e : Web.Err)
  | notify (e : Notify.Err)

abbrev Program := Prog Op.Ans Err

/-- The outcome of an operation, by whose it is. -/
inductive Choice
  | web (c : Web.Choice)
  | notify (f : Fate Uuid)

def exec (op : Op) (choice : Choice) (w : World) : Option (Except Err op.Ans × World) :=
  match op, choice with
  | .web op, .web c => (Web.exec op c w).map fun r => (r.1.mapError Err.web, r.2)
  | .notify op, .notify f =>
      (Notify.backend.exec op f w).map fun r => (r.1.mapError Err.notify, r.2)
  | _, _ => none

def webEmbedding : Embedding Web.Op.Ans Web.Err Op.Ans Err where
  op := .web
  err := .web
  back _ := Except.mapError fun
    | .web e => e
    | _ => .internal ""

def notifyEmbedding : Embedding Notify.Op.Ans Notify.Err Op.Ans Err where
  op := .notify
  err := .notify
  back _ := Except.mapError fun
    | .notify e => e
    | _ => .plain ""

/-- What the web and the chats do. -/
abbrev web {α : Type} (p : Web.Program α) : Program α := p.embed webEmbedding

abbrev dialog {α : Type} (p : Dialog.Program α) : Program α := web (Web.dialog p)

abbrev core {α : Type} (p : Meduman.Program α) : Program α := dialog (Dialog.core p)

abbrev notify {α : Type} (p : Notify.Program α) : Program α := p.embed notifyEmbedding

/-! ## The service -/

/-- A call of the core; a request, a chat message or a call of the account linking; a seller who reads
their profile, or onboards; a job of the notification queue. -/
inductive Call
  | core (call : Meduman.Call)
  | web (call : Web.Call)
  | seller (userId : Uuid)
  | onboard (call : Sellers.Call)
  | deliverOtpCode (data : Otp.OtpNotificationJobData)
  | deliverInvoice (invoiceId : Uuid)

inductive Reply
  | core (reply : Meduman.Reply)
  | web (reply : Web.Reply)
  | profile (profile : SellerProfile)
  | processed

/-- The settings. -/
structure Env where
  core : Meduman.Env
  dialog : Dialog.Env

variable (env : Env)

/-- What each service lets in; a job may be attempted at any time, and again. -/
def admits (c : Call) (w : World) : Bool :=
  match c with
  | .core call => platformAdmits env.core call w.core
  | .web call => Web.admits call w
  | .onboard call => Sellers.admits call w.sellers
  | _ => true

/-- The program of a call. -/
def code : Call → Program Reply
  | .core call => Reply.core <$> core (Meduman.code env.core call)
  | .web call => Reply.web <$> web (Web.code env.dialog call)
  | .seller userId => Reply.profile <$> dialog (Dialog.sellers (Sellers.getOrCreate userId))
  | .onboard call => Reply.profile <$> dialog (Dialog.sellers (Sellers.code call))
  | .deliverOtpCode data => (fun _ => Reply.processed) <$> notify (Notify.deliverOtpCode data)
  | .deliverInvoice invoiceId =>
      (fun _ => Reply.processed) <$> notify (Notify.deliverInvoice invoiceId)

/-- Time passes and Paystack goes on, someone signs up on the web, or a merchant opens an account for a
seller. -/
inductive Move
  | core (m : Meduman.Move)
  | signUp (id : Uuid) (email : String)
  | createSeller (id : Uuid) (email : String) (merchantId : Uuid)

/-- The user a merchant opens an account for. -/
def merchantUser (id : Uuid) (email : String) (merchantId : Uuid) : Linking.User :=
  { Linking.webUser id email with roleFlags := [.seller], merchantId := some merchantId }

/-- Merges come by their calls, and the other tables change by nobody else. -/
def drift (m : Move) (w : World) : Option World :=
  match m with
  | .core (.merge ..) | .core (.others ..) => none
  | .core m => (Meduman.drift m w.core).map fun core => { w with core := core }
  | .signUp id email => (Linking.drift (.signUp id email) w.linking).map fun l => w.putLinking l
  | .createSeller id email merchantId => do
      let users ← w.linking.users.create (merchantUser id email merchantId)
      let sellerProfiles ← w.linking.sellerProfiles.create { userId := id }
      some (w.putLinking { w.linking with users := users, sellerProfiles := sellerProfiles })

/-- All the services, in any company. -/
abbrev service : Service Op.Ans Err where
  World := World
  Choice := Choice
  Move := Move
  Call := Call
  Reply := Reply
  exec := exec
  drift := drift
  admits := admits env
  code := code env

/-- The configurations all of it can reach. -/
def Reachable (x : Config (service env)) : Prop := Reaches Guard.free ⟨Dialog.World.initial, []⟩ x

end Meduman.Joint
