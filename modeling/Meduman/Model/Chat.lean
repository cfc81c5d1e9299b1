import Meduman.Effect.Backend
import Meduman.Effect.Policy
import Meduman.Model.Transactions

/-!
# The chat gateway

What the platforms deliver, how an adapter reads it, and how a message is recorded and handed to the
worker.

* `Chat.ChatAdapter.parse` : the messages in a webhook body
* `Chat.chatInboundJobId`, `Chat.acceptsId` : the id of a message's job, and the ids the queue takes
* `Chat.ingest` : record each message of a batch, and enqueue it
* `Chat.gateway` : ingestion, in any company
-/

set_option autoImplicit false

namespace Meduman.Chat

open Effect

inductive ChatPlatform
  | telegram | whatsapp | instagram | messenger | x
deriving DecidableEq, Repr

def ChatPlatform.text : ChatPlatform → String
  | telegram => "TELEGRAM"
  | whatsapp => "WHATSAPP"
  | instagram => "INSTAGRAM"
  | messenger => "MESSENGER"
  | x => "X"

structure InboundMedia where
  id : String
  mimeType : Option String := none
  filename : Option String := none
  url : Option String := none
deriving DecidableEq

structure InboundChatMessage where
  platform : ChatPlatform
  providerMessageId : String
  sender : String
  displayName : Option String := none
  text : Option String := none
  payload : Option String := none
  media : List InboundMedia := []
deriving DecidableEq

/-! ## Webhook bodies

The fields an adapter reads; a field of another type than the platform documents does not occur. -/

structure TelegramDocument where
  file_id : Option String := none
  mime_type : Option String := none
  file_name : Option String := none

structure TelegramUser where
  first_name : Option String := none
  username : Option String := none

/-- `chatId` is the text of `chat.id`; a photo is the `file_id` of its sizes. -/
structure TelegramMessage where
  text : Option String := none
  caption : Option String := none
  photo : List (Option String) := []
  document : Option TelegramDocument := none
  chatId : Option String := none
  sender : Option TelegramUser := none

structure TelegramCallbackQuery where
  id : Option String := none
  data : Option String := none
  chatId : Option String := none
  sender : Option TelegramUser := none

structure WhatsAppMedia where
  id : Option String := none
  mime_type : Option String := none
  filename : Option String := none
  caption : Option String := none

structure WhatsAppMessage where
  sender : Option String := none
  id : Option String := none
  textBody : Option String := none
  image : Option WhatsAppMedia := none
  document : Option WhatsAppMedia := none
  buttonReply : Option String := none
  listReply : Option String := none

/-- `contactName` is the name in the first contact's profile. -/
structure WhatsAppChange where
  messages : List WhatsAppMessage := []
  contactName : Option String := none

/-- An attachment is its URL, where it has one. -/
structure MessengerEvent where
  sender : Option String := none
  messageMid : Option String := none
  messageText : Option String := none
  quickReply : Option String := none
  attachments : List (Option String) := []
  postbackMid : Option String := none
  postbackPayload : Option String := none

structure MetaEntry where
  messaging : List MessengerEvent := []
  changes : List WhatsAppChange := []

structure WebhookBody where
  update_id : Option Int := none
  message : Option TelegramMessage := none
  callback_query : Option TelegramCallbackQuery := none
  entry : List MetaEntry := []

/-! ## Adapters -/

inductive MetaProduct
  | whatsapp | messenger
deriving DecidableEq

inductive ChatAdapter
  | telegramAdapter
  | metaAdapter (platform : ChatPlatform) (product : MetaProduct)
  | xAdapter
deriving DecidableEq

def ChatAdapter.platform : ChatAdapter → ChatPlatform
  | telegramAdapter => .telegram
  | metaAdapter platform _ => platform
  | xAdapter => .x

def telegramName (sender : Option TelegramUser) : Option String :=
  sender.bind fun u => u.first_name.or u.username

/-- The largest photo size, and a document. -/
def extractMedia (msg : TelegramMessage) : List InboundMedia :=
  ((truthy msg.photo.getLast?.join).map fun id =>
    { id := id, mimeType := some "image/jpeg" : InboundMedia }).toList ++
  (msg.document.bind fun d => (truthy d.file_id).map fun id =>
    { id := id, mimeType := truthy d.mime_type, filename := truthy d.file_name :
      InboundMedia }).toList

/-- The message in a Telegram update. -/
def parseTelegram (body : WebhookBody) : List InboundChatMessage :=
  match body.update_id with
  | none => []
  | some update_id =>
      match body.callback_query with
      | some cq =>
          match cq.chatId with
          | none => []
          | some chatId =>
              [{ platform := .telegram
                 providerMessageId := "cbq:" ++ cq.id.getD (toString update_id)
                 sender := chatId
                 displayName := truthy (telegramName cq.sender)
                 payload := truthy cq.data }]
      | none =>
          match body.message with
          | none => []
          | some msg =>
              match msg.chatId with
              | none => []
              | some chatId =>
                  [{ platform := .telegram
                     providerMessageId := "msg:" ++ toString update_id
                     sender := chatId
                     displayName := truthy (telegramName msg.sender)
                     text := truthy (msg.text.or msg.caption)
                     media := extractMedia msg }]

def whatsAppMedia (image document : Option WhatsAppMedia) : List InboundMedia :=
  (image.bind fun i => (truthy i.id).map fun id =>
    { id := id, mimeType := some (i.mime_type.getD "image/jpeg") : InboundMedia }).toList ++
  (document.bind fun d => (truthy d.id).map fun id =>
    { id := id, mimeType := truthy d.mime_type, filename := truthy d.filename :
      InboundMedia }).toList

def parseWhatsAppMessage (platform : ChatPlatform) (name : Option String) (m : WhatsAppMessage) :
    Option InboundChatMessage := do
  let id ← truthy m.id
  let sender ← truthy m.sender
  let caption := (m.image.bind WhatsAppMedia.caption).or (m.document.bind WhatsAppMedia.caption)
  some
    { platform := platform
      providerMessageId := id
      sender := sender
      displayName := truthy name
      text := truthy (m.textBody.or caption)
      payload := truthy (m.buttonReply.or m.listReply)
      media := whatsAppMedia m.image m.document }

def parseWhatsApp (platform : ChatPlatform) (entries : List MetaEntry) :
    List InboundChatMessage :=
  entries.flatMap fun entry => entry.changes.flatMap fun change =>
    change.messages.filterMap (parseWhatsAppMessage platform change.contactName)

def parseMessengerEvent (platform : ChatPlatform) (ev : MessengerEvent) :
    Option InboundChatMessage := do
  let sender ← truthy ev.sender
  let id ← truthy (ev.messageMid.or ev.postbackMid)
  some
    { platform := platform
      providerMessageId := id
      sender := sender
      text := truthy ev.messageText
      payload := truthy (ev.postbackPayload.or ev.quickReply)
      media := ev.attachments.filterMap fun url => (truthy url).map fun url =>
        { id := url, url := some url } }

def parseMessenger (platform : ChatPlatform) (entries : List MetaEntry) :
    List InboundChatMessage :=
  entries.flatMap fun entry => entry.messaging.filterMap (parseMessengerEvent platform)

/-- The messages an adapter finds in a body; none in one that is no object. -/
def ChatAdapter.parse (a : ChatAdapter) (body : Option WebhookBody) : List InboundChatMessage :=
  match body, a with
  | none, _ => []
  | some body, telegramAdapter => parseTelegram body
  | some body, metaAdapter platform .whatsapp => parseWhatsApp platform body.entry
  | some body, metaAdapter platform .messenger => parseMessenger platform body.entry
  | some _, xAdapter => []

/-- The registered adapters, and whether a body and its headers are signed. -/
structure Env where
  adapters : List ChatAdapter
  signed : ChatAdapter → String → String → Bool

/-- The adapter of a platform; a later registration replaces an earlier one. -/
def Env.get (env : Env) (platform : ChatPlatform) : Option ChatAdapter :=
  env.adapters.reverse.find? fun a => a.platform == platform

/-- The X adapter accepts nothing. -/
def Env.verifySignature (env : Env) (a : ChatAdapter) (rawBody headers : String) : Bool :=
  match a with
  | .xAdapter => false
  | a => env.signed a rawBody headers

/-! ## The queue -/

structure ChatInboundJobData where
  platform : ChatPlatform
  providerMessageId : String
  sender : String
  displayName : Option String
  text : Option String
  payload : Option String
  media : List InboundMedia
deriving DecidableEq

/-- The id of the job for a message. -/
def chatInboundJobId (platform : ChatPlatform) (providerMessageId : String) : String :=
  "chat-in." ++ platform.text ++ ":" ++ providerMessageId

/-- The custom job ids the queue takes: without a colon, or of three parts. -/
def acceptsId (jobId : String) : Bool :=
  jobId.toList.count ':' == 0 || jobId.toList.count ':' == 2

/-- A job that was added; `kept` until the queue forgets it. -/
structure ChatJob where
  id : String
  data : ChatInboundJobData
  kept : Bool
deriving DecidableEq

structure ChatInboundEvent where
  id : Uuid
  platform : ChatPlatform
  providerMessageId : String
  rawPayload : Option WebhookBody

instance : Constrained ChatInboundEvent where
  clash a b := a.id == b.id ||
    (a.platform == b.platform && a.providerMessageId == b.providerMessageId)
  clash_comm a b := by
    rw [Bool.beq_comm, @Bool.beq_comm _ _ _ a.platform, @Bool.beq_comm _ _ _ a.providerMessageId]

/-- Every job ever added is there, the newest last. -/
structure World where
  inboundEvents : Table ChatInboundEvent
  chatJobs : List ChatJob

def World.initial : World := ⟨.empty, []⟩

structure ChatInboundEventCreate where
  platform : ChatPlatform
  providerMessageId : String
  rawPayload : Option WebhookBody

inductive Err
  | notFound (message : String)
  | unauthorized (message : String)
  | p2002
  | prisma (message : String)
  | plain (message : String)
deriving DecidableEq

inductive Op
  | chatInboundEventCreate (data : ChatInboundEventCreate)
  | chatQueueAdd (jobId : String) (data : ChatInboundJobData)

@[reducible] def Op.Ans : Op → Type
  | chatInboundEventCreate _ => Unit
  | chatQueueAdd .. => Unit

abbrev Program := Prog Op.Ans Err

abbrev await (op : Op) : Program op.Ans := Prog.perform op

def ChatInboundEventCreate.row (d : ChatInboundEventCreate) (id : Uuid) : ChatInboundEvent where
  id := id
  platform := d.platform
  providerMessageId := d.providerMessageId
  rawPayload := d.rawPayload

/-- What a served operation answers, and the world it leaves. The queue ignores a job whose id it has
kept. -/
def effect (id : Uuid) (w : World) : (op : Op) → Except Err op.Ans × World
  | .chatInboundEventCreate d =>
      match w.inboundEvents.create (d.row id) with
      | none => (.error .p2002, w)
      | some inboundEvents => (.ok (), { w with inboundEvents := inboundEvents })
  | .chatQueueAdd jobId data =>
      if !acceptsId jobId then (.error (.plain "Custom Id cannot contain :"), w)
      else if w.chatJobs.any fun j => j.kept && j.id == jobId then (.ok (), w)
      else (.ok (), { w with chatJobs := w.chatJobs ++ [⟨jobId, data, true⟩] })

def Op.fits (id : Uuid) (w : World) : Op → Bool
  | chatInboundEventCreate _ => w.inboundEvents.rows.all fun e => e.id != id
  | _ => true

def Op.fault (message : String) : Op → Err
  | chatInboundEventCreate _ => .prisma message
  | chatQueueAdd .. => .plain message

/-- The database and the queue; both write, and both can fail. -/
def backend : Backend Op.Ans Err World Uuid where
  effect := effect
  fits := Op.fits
  writes _ := true
  fallible _ := true
  fault := Op.fault

/-- The queue forgets the jobs with this id: the worker has finished with them. -/
def drift (jobId : String) (w : World) : Option World :=
  some { w with chatJobs := w.chatJobs.map fun j =>
    if j.id = jobId then { j with kept := false } else j }

/-! ## The service -/

structure ChatWebhookResult where
  received : Bool := true
  accepted : Nat
  duplicate : Option Nat := none
deriving DecidableEq

/-- Record the message; whether it is new. -/
def recordInbound (message : InboundChatMessage) (rawBody : Option WebhookBody) : Program Bool :=
  ((fun _ => true) <$> await (.chatInboundEventCreate
    { platform := message.platform, providerMessageId := message.providerMessageId,
      rawPayload := rawBody })).tryCatch fun
    | .p2002 => pure false
    | e => Prog.throw e

def toJob (message : InboundChatMessage) : ChatInboundJobData where
  platform := message.platform
  providerMessageId := message.providerMessageId
  sender := message.sender
  displayName := truthy message.displayName
  text := truthy message.text
  payload := truthy message.payload
  media := message.media

def enqueueChatInbound (data : ChatInboundJobData) : Program Unit :=
  await (.chatQueueAdd (chatInboundJobId data.platform data.providerMessageId) data)

/-- The messages of a batch in turn, with the numbers of new and of known ones. -/
def ingestMessages (rawBody : Option WebhookBody) :
    List InboundChatMessage → Nat → Nat → Program (Nat × Nat)
  | [], accepted, duplicate => pure (accepted, duplicate)
  | message :: messages, accepted, duplicate => do
      let isNew ← recordInbound message rawBody
      if !isNew then ingestMessages rawBody messages accepted (duplicate + 1)
      else do
        enqueueChatInbound (toJob message)
        ingestMessages rawBody messages (accepted + 1) duplicate

structure IngestInput where
  platform : ChatPlatform
  rawBody : String
  headers : String
  body : Option WebhookBody

variable (env : Env)

/-- Verify, record, enqueue. -/
def ingest (input : IngestInput) : Program ChatWebhookResult :=
  match env.get input.platform with
  | none => Prog.throw (.notFound ("Unconfigured chat platform: " ++ input.platform.text))
  | some adapter =>
      if !env.verifySignature adapter input.rawBody input.headers then
        Prog.throw (.unauthorized "Invalid chat webhook signature")
      else do
        let counts ← ingestMessages input.body (adapter.parse input.body) 0 0
        pure { accepted := counts.1, duplicate := if counts.2 = 0 then none else some counts.2 }

/-- Any number of deliveries, of any batches. -/
abbrev gateway : Service Op.Ans Err where
  World := World
  Choice := Fate Uuid
  Move := String
  Call := IngestInput
  Reply := ChatWebhookResult
  exec := backend.exec
  drift := drift
  admits := fun _ _ => true
  code := ingest env

/-- The configurations the gateway can reach. -/
def Reachable (x : Config (gateway env)) : Prop := Reaches Guard.free ⟨World.initial, []⟩ x

end Meduman.Chat
