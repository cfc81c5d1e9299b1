import Meduman.Dialog.Owners
import Meduman.Model.Joint
import Meduman.Web.Requests

/-!
# Whom each service writes for

A row gets its owner from whoever is signed in, from what a call read before it writes, or from whom it
minted; in all the services together as in each of them.

* `Web.code_owns`, `Notify.code_owns` : a request writes for its user, a delivery for the buyer it read
* `Joint.Call.actsFor` : the users a call may write rows for, by what it has done
* **`Joint.code_owns`** : every call writes rows for them only
* `Joint.owned_of_reaches` : and so does every call in progress
-/

set_option autoImplicit false

namespace Meduman.Linking

open Effect Chat

variable {h : Hist}

/-- A call of the linking service writes for whom it minted. -/
theorem code_owns (env : Env) (c : Call) :
    OwnsOnly Dialog.SenderRead nameless (code env c) [] := by
  cases c with
  | message platform platformUserId displayName connect =>
      show OwnsOnly Dialog.SenderRead nameless (receive env platform platformUserId displayName connect) []
      unfold receive
      rw [OwnsOnly, along_bind]
      refine (Dialog.resolveOrCreate_resolves env displayName).mono fun r h' _ => ?_
      cases r with
      | error e => trivial
      | ok identity =>
          cases connect with
          | none => trivial
          | some code => exact only_map (ownerless_only (consume_ownerless env identity code))
  | mint targetUserId => exact only_map (ownerless_only (mint_ownerless env targetUserId))
  | resolve input => exact only_map (ownerless_only (resolve_ownerless input))

end Meduman.Linking

namespace Meduman.Web

open Effect

/-- The user an operation makes an owner. -/
def Op.owner : Op → Option Uuid
  | .dialog op => Owning.owner op
  | .web (.evidenceCreate d) => some d.uploadedBy
  | _ => none

instance : Owning Op := ⟨Op.owner⟩

/-- The users a call may write for: who complains or registers a file, whom the chat message may, and
whom a first contact minted. -/
def Call.writesFor (c : Call) (h : Hist) (u : Uuid) : Bool :=
  match c with
  | .raise claims _ _ | .create claims _ _ => claims.sub == u
  | .message data => Dialog.writesFor data (inner h) u
  | .link _ => Linking.nameless ((inner h).filterMap Dialog.linkingEvent) u
  | _ => false

variable {α : Type} {env : Dialog.Env} {claims : SupabaseJwtClaims} {id : Uuid}

theorem dialog_ownerless {p : Dialog.Program α} (hp : p.Uses Ownerless) : (dialog p).Uses Ownerless :=
  uses_embed hp fun _ hop => hop

theorem dialog_ownedBy {p : Dialog.Program α} {v : Uuid} (hp : p.Uses (OwnedBy v)) :
    (dialog p).Uses (OwnedBy v) :=
  uses_embed hp fun _ hop => hop

theorem Uses.ownedBy {p : Program α} {v : Uuid} (hp : p.Uses Ownerless) : p.Uses (OwnedBy v) :=
  hp.mono fun _ hop => hop.ownedBy

theorem getById_ownerless (id : Uuid) : (getById id).Uses Ownerless :=
  dialog_ownerless (Dialog.core_ownerless (load_ownerless id))

theorem assertParticipant_ownerless (sellerId : Uuid) (buyerId : Option Uuid) :
    (assertParticipant sellerId buyerId claims).Uses Ownerless := by
  unfold assertParticipant
  split <;> trivial

theorem get_ownerless : (get claims id).Uses Ownerless := by
  refine uses_bind (getById_ownerless id) fun tx => ?_
  exact uses_bind (assertParticipant_ownerless _ _) fun _ => trivial

theorem getFor_ownerless {read : Program α} (hread : read.Uses Ownerless) :
    (getFor claims id read).Uses Ownerless :=
  uses_bind get_ownerless fun _ => uses_bind (getById_ownerless id) fun _ => hread

theorem sellerAction_ownerless (event : TransactionEvent) :
    (sellerAction claims id event).Uses Ownerless := by
  refine uses_bind (getById_ownerless id) fun tx => ?_
  split
  · trivial
  · exact dialog_ownerless (Dialog.core_ownerless (apply_ownerless _))

theorem confirm_ownerless : (confirm claims id).Uses Ownerless := by
  refine dialog_ownerless (Dialog.core_ownerless (uses_bind (load_ownerless id) fun tx => ?_))
  split
  · trivial
  · refine uses_bind (apply_ownerless _) fun updated => ?_
    exact uses_bind (uses_perform rfl) fun _ => trivial

theorem requestOtp_ownerless (env : Otp.Env) : (requestOtp env claims id).Uses Ownerless := by
  refine uses_bind (getById_ownerless id) fun tx => ?_
  split
  · trivial
  · exact uses_bind (dialog_ownerless (Dialog.otp_ownerless _)) fun _ => trivial

theorem confirmOtp_ownerless (env : Otp.Env) (dto : VerifyOtpDto) :
    (confirmOtp env claims id dto).Uses Ownerless := by
  refine uses_bind (getById_ownerless id) fun tx => ?_
  split
  · trivial
  · refine uses_bind (dialog_ownerless (Dialog.otp_ownerless _)) fun _ => ?_
    refine uses_bind (dialog_ownerless (Dialog.core_ownerless (apply_ownerless _))) fun _ => ?_
    exact uses_bind (dialog_ownerless (Dialog.perform_ownerless rfl)) fun _ => trivial

theorem raise_ownedBy (dto : RaiseDisputeDto) : (raise claims id dto).Uses (OwnedBy claims.sub) :=
  dialog_ownedBy (Dialog.core_ownedBy (Meduman.raise_ownedBy _))

theorem create_ownedBy (dto : CreateEvidenceDto) : (create claims id dto).Uses (OwnedBy claims.sub) := by
  refine uses_bind (Uses.ownedBy (getById_ownerless id)) fun tx => ?_
  refine uses_bind (Uses.ownedBy (assertParticipant_ownerless _ _)) fun _ => ?_
  refine uses_bind (Uses.ownedBy (dialog_ownerless (Dialog.perform_ownerless rfl))) fun uuid => ?_
  refine uses_bind (uses_perform (Ownerless.ownedBy rfl)) fun upload => ?_
  exact uses_bind (uses_perform (ownedBy_of_owner rfl)) fun _ => trivial

theorem download_ownerless : (download claims id).Uses Ownerless := by
  refine uses_bind (uses_perform rfl) fun found => ?_
  cases found with
  | none => trivial
  | some file =>
      obtain ⟨ev, sellerId, buyerId⟩ := file
      exact uses_bind (assertParticipant_ownerless _ _) fun _ => uses_perform rfl

/-- What the dialog does, here. -/
theorem dialog_only {f : Dialog.Hist → Uuid → Bool} {c : Call} {p : Dialog.Program α}
    (hf : ∀ h u, f (inner h) u = true → c.writesFor h u = true)
    (hp : OwnsOnly Dialog.Answers f p []) : OwnsOnly Answers c.writesFor (dialog p) [] :=
  only_embed (fun _ => rfl) inner (fun _ _ _ => rfl) (fun _ _ ha => ha _ rfl) hf hp

/-- **Every request writes for its users only.** -/
theorem code_owns (env : Dialog.Env) (c : Call) : OwnsOnly Answers c.writesFor (code env c) [] := by
  have hself (v : Uuid) : (v == v) = true := beq_self_eq_true v
  cases c with
  | get claims id => exact only_map (ownerless_only get_ownerless)
  | timeline claims id => exact only_map (ownerless_only (getFor_ownerless (uses_perform rfl)))
  | disputes claims id => exact only_map (ownerless_only (getFor_ownerless (uses_perform rfl)))
  | payouts claims id =>
      refine only_map (ownerless_only (getFor_ownerless ?_))
      exact uses_bind (uses_perform rfl) fun _ => trivial
  | publish claims id | startDelivery claims id | markDelivered claims id | cancel claims id =>
      exact only_map (ownerless_only (sellerAction_ownerless _))
  | confirm claims id => exact only_map (ownerless_only confirm_ownerless)
  | requestOtp claims id => exact only_map (ownerless_only (requestOtp_ownerless env.otp))
  | confirmOtp claims id dto => exact only_map (ownerless_only (confirmOtp_ownerless env.otp dto))
  | raise claims id dto => exact only_map (ownedBy_only (raise_ownedBy dto) fun _ => hself _)
  | create claims id dto => exact only_map (ownedBy_only (create_ownedBy dto) fun _ => hself _)
  | download claims id => exact only_map (ownerless_only download_ownerless)
  | message data =>
      exact only_map (dialog_only (fun _ _ hu => hu) (Dialog.processInbound_owns data))
  | link call =>
      refine only_map (dialog_only (f := fun h => Linking.nameless (h.filterMap Dialog.linkingEvent))
        (fun _ _ hu => hu) ?_)
      exact only_embed (fun _ => rfl) (List.filterMap Dialog.linkingEvent) (fun _ _ _ => rfl)
        (fun _ _ ha => ha) (fun _ _ hu => hu) (Linking.code_owns env.linking call)

end Meduman.Web

namespace Meduman.Notify

open Effect

/-- The user an operation makes an owner. -/
def Op.owner : Op → Option Uuid
  | .notificationCreate d => some d.userId
  | _ => none

instance : Owning Op := ⟨Op.owner⟩

abbrev Hist := History Op.Ans Err

/-- The buyer of what was read. -/
def buyerRead : Event Op.Ans Err → Option Uuid
  | ⟨.transactionFindUnique _, .ok found⟩ => found.bind fun r => r.1.buyerId
  | ⟨.invoiceFindUnique _, .ok found⟩ => found.bind Linking.Invoice.buyerId
  | _ => none

/-- A delivery may write for the buyer it read. -/
def writesFor (h : Hist) (u : Uuid) : Bool := h.any fun e => buyerRead e == some u

variable {P : Event Op.Ans Err → Prop} {h : Hist} {b : Option Uuid}

/-- Nobody but the buyer becomes an owner. -/
def OwnedByBuyer (buyer : Option Uuid) (op : Op) : Prop :=
  ∀ u, Owning.owner op = some u → buyer = some u

theorem ownedByBuyer_of_ownerless {op : Op} (hop : Ownerless op) : OwnedByBuyer b op := by
  intro v hv
  rw [hop] at hv
  cases hv

theorem sendOtpCode_ownerless (data : Otp.OtpNotificationJobData) (id : Uuid) (phone : String) :
    (sendOtpCode data id phone).Uses Ownerless := by
  refine uses_tryCatch (uses_bind (uses_perform rfl) fun _ => uses_perform rfl) fun e => ?_
  exact uses_bind (uses_perform rfl) fun _ => trivial

theorem mailInvoice_ownedByBuyer (invoice : Linking.Invoice) :
    (mailInvoice invoice).Uses (OwnedByBuyer invoice.buyerId) := by
  unfold mailInvoice
  split
  · trivial
  · refine uses_bind (uses_perform (ownedByBuyer_of_ownerless rfl)) fun _ => ?_
    split
    · trivial
    · rename_i buyerId hbuyer
      exact uses_bind (uses_perform fun u hu => hbuyer.trans hu) fun _ => trivial

/-- What is for the buyer that was read. -/
theorem only_of_read {α : Type} {p : Program α} (hp : p.Uses (OwnedByBuyer b))
    (hread : ∀ u, b = some u → writesFor h u = true) : OwnsOnly P writesFor p h := by
  refine (hp.along_from fun h' hs op hop u hu => ?_).mono fun _ _ _ => trivial
  obtain ⟨e, he, hbuyer⟩ := List.any_eq_true.mp (hread u (hop u hu))
  exact List.any_eq_true.mpr ⟨e, hs.subset he, hbuyer⟩

/-- **A code is delivered to the buyer that was read.** -/
theorem deliverOtpCode_owns (data : Otp.OtpNotificationJobData) :
    OwnsOnly P writesFor (deliverOtpCode data) [] := by
  unfold deliverOtpCode
  rw [OwnsOnly, along_perform_bind]
  refine ⟨Ownerless.ownedIn rfl, fun _ _ => trivial, fun found _ => ?_⟩
  cases found with
  | none => trivial
  | some r =>
      obtain ⟨tx, phone⟩ := r
      dsimp only
      split
      · trivial
      · rename_i buyerId hbuyer
        refine only_of_read (b := some buyerId) ?_ fun u hu => ?_
        · refine uses_bind (uses_perform (ownedByBuyer_of_ownerless rfl)) fun found => ?_
          cases found with
          | some chatIdentity =>
              refine uses_bind (uses_perform fun u hu => hu) fun _ => ?_
              exact uses_perform (ownedByBuyer_of_ownerless rfl)
          | none =>
              refine uses_bind (uses_perform fun u hu => hu) fun notification => ?_
              split
              · exact uses_perform (ownedByBuyer_of_ownerless rfl)
              · exact (sendOtpCode_ownerless data _ _).mono fun _ hop => ownedByBuyer_of_ownerless hop
        · simp [writesFor, buyerRead, hbuyer, hu]

/-- **An invoice is delivered to the buyer that was read.** -/
theorem deliverInvoice_owns (invoiceId : Uuid) :
    OwnsOnly P writesFor (deliverInvoice invoiceId) [] := by
  unfold deliverInvoice
  rw [OwnsOnly, along_perform_bind]
  refine ⟨Ownerless.ownedIn rfl, fun _ _ => trivial, fun found _ => ?_⟩
  cases found with
  | none => trivial
  | some invoice =>
      refine only_of_read (b := invoice.buyerId) ?_ fun u hu => ?_
      · dsimp only
        split
        · exact mailInvoice_ownedByBuyer invoice
        · refine uses_bind (uses_perform (ownedByBuyer_of_ownerless rfl)) fun found => ?_
          cases found with
          | some _ => exact uses_perform (ownedByBuyer_of_ownerless rfl)
          | none => exact mailInvoice_ownedByBuyer invoice
      · simp [writesFor, buyerRead, hu]

end Meduman.Notify

namespace Meduman.Joint

open Effect

/-- The user an operation makes an owner. -/
def Op.owner : Op → Option Uuid
  | .web op => Owning.owner op
  | .notify op => Owning.owner op

instance : Owning Op := ⟨Op.owner⟩

abbrev Hist := History Op.Ans Err

/-! ## What each service sees of a call -/

def webEvent : Event Op.Ans Err → Option (Event Web.Op.Ans Web.Err)
  | ⟨.web op, a⟩ => some ⟨op, webEmbedding.back op a⟩
  | _ => none

def notifyEvent : Event Op.Ans Err → Option (Event Notify.Op.Ans Notify.Err)
  | ⟨.notify op, a⟩ => some ⟨op, notifyEmbedding.back op a⟩
  | _ => none

def coreEvent : Event Dialog.Op.Ans Dialog.Err → Option (Event Meduman.Op.Ans Meduman.Err)
  | ⟨.core op, a⟩ => some ⟨op, Dialog.coreEmbedding.back op a⟩
  | _ => none

abbrev webEvents (h : Hist) : Web.Hist := h.filterMap webEvent

abbrev notifyEvents (h : Hist) : Notify.Hist := h.filterMap notifyEvent

abbrev coreEvents (h : Hist) : Meduman.Hist := (Web.inner (webEvents h)).filterMap coreEvent

/-- The users a call may write rows for: whoever it acts for, and who comes with what it read. -/
def Call.actsFor (c : Call) (h : Hist) (u : Uuid) : Bool :=
  match c with
  | .core call => call.ownsFor (coreEvents h) u
  | .web call => call.writesFor (webEvents h) u
  | .seller userId => userId == u
  | .onboard call => call.seller == u
  | .deliverOtpCode _ | .deliverInvoice _ => Notify.writesFor (notifyEvents h) u

/-- What an answer says to the web. -/
def Answers (e : Event Op.Ans Err) : Prop := ∀ e', webEvent e = some e' → Web.Answers e'

theorem answers_exec {op : Op} {o : Choice} {u w : World} {a : Except Err op.Ans}
    (he : exec op o u = some (a, w)) : Answers ⟨op, a⟩ := by
  intro e' he'
  cases op with
  | notify op => cases he'
  | web op =>
      cases he'
      cases o with
      | notify f => cases he
      | web f =>
          obtain ⟨⟨a₀, w'⟩, hexec, heq⟩ := Option.map_eq_some_iff.mp he
          cases heq
          cases a₀ <;> exact Web.answers_exec hexec

/-! ## Every call -/

section Services

variable {α : Type} {c : Call}

/-- What the web does, here. -/
theorem web_only {f : Web.Hist → Uuid → Bool} {p : Web.Program α}
    (hf : ∀ h u, f (webEvents h) u = true → c.actsFor h u = true)
    (hp : OwnsOnly Web.Answers f p []) : OwnsOnly Answers c.actsFor (web p) [] :=
  only_embed (fun _ => rfl) webEvents (fun _ _ _ => rfl) (fun _ _ ha => ha _ rfl) hf hp

/-- What the core does, here. -/
theorem core_only {f : Meduman.Hist → Uuid → Bool} {p : Meduman.Program α}
    (hf : ∀ h u, f (coreEvents h) u = true → c.actsFor h u = true)
    (hp : OwnsOnly (fun _ => True) f p []) : OwnsOnly Answers c.actsFor (core p) [] := by
  have hdialog : OwnsOnly Dialog.Answers (fun h => f (h.filterMap coreEvent)) (Dialog.core p) [] :=
    only_embed (fun _ => rfl) (List.filterMap coreEvent) (fun _ _ _ => rfl) (fun _ _ _ => trivial)
      (fun _ _ hu => hu) hp
  have hweb : OwnsOnly Web.Answers (fun h => f ((Web.inner h).filterMap coreEvent))
      (Web.dialog (Dialog.core p)) [] :=
    only_embed (P := Dialog.Answers) (f := fun h => f (h.filterMap coreEvent)) (fun _ => rfl) Web.inner
      (fun _ _ _ => rfl) (fun _ _ ha => ha _ rfl) (fun _ _ hu => hu) hdialog
  exact web_only hf hweb

/-- What the onboarding of sellers does, here. -/
theorem sellers_only {v : Uuid} {p : Sellers.Program α} (hp : p.Uses (OwnedBy v))
    (hf : ∀ h, c.actsFor h v = true) : OwnsOnly Answers c.actsFor (dialog (Dialog.sellers p)) [] := by
  have hdialog : (Dialog.sellers p).Uses (OwnedBy v) := Dialog.sellers_ownedBy hp
  have hjoint : (dialog (Dialog.sellers p)).Uses (OwnedBy v) :=
    uses_embed (Web.dialog_ownedBy hdialog) fun _ hop => hop
  exact ownedBy_only hjoint hf

/-- What the deliveries do, here. -/
theorem notify_only {p : Notify.Program α}
    (hf : ∀ h u, Notify.writesFor (notifyEvents h) u = true → c.actsFor h u = true)
    (hp : OwnsOnly (fun _ => True) Notify.writesFor p []) :
    OwnsOnly Answers c.actsFor (notify p) [] :=
  only_embed (fun _ => rfl) notifyEvents (fun _ _ _ => rfl) (fun _ _ _ => trivial) hf hp

end Services

/-- **Every call writes rows only for the users it acts for.** -/
theorem code_owns (env : Env) (c : Call) : OwnsOnly Answers c.actsFor (code env c) [] := by
  have hself (v : Uuid) : (v == v) = true := beq_self_eq_true v
  cases c with
  | core call => exact only_map (core_only (fun _ _ hu => hu) (Meduman.code_owns env.core call))
  | web call => exact only_map (web_only (fun _ _ hu => hu) (Web.code_owns env.dialog call))
  | seller userId =>
      exact only_map (sellers_only (Sellers.getOrCreate_ownedBy userId) fun _ => hself _)
  | onboard call => exact only_map (sellers_only (Sellers.code_ownedBy call) fun _ => hself _)
  | deliverOtpCode data =>
      exact only_map (notify_only (fun _ _ hu => hu) (Notify.deliverOtpCode_owns data))
  | deliverInvoice invoiceId =>
      exact only_map (notify_only (fun _ _ hu => hu) (Notify.deliverInvoice_owns invoiceId))

/-- **What a call in progress writes next** is for a user it acts for. -/
theorem owned_of_reaches {env : Env} {x : Config (service env)} (hx : Reachable env x)
    {p : Process (service env)} (hp : p ∈ x.procs) {op : Op} {k : Except Err op.Ans → Program Reply}
    (hk : p.prog = some (.call op k)) : OwnedIn (Call.actsFor p.call p.hist) op :=
  (hx.along (J := fun c h => OwnedIn (Call.actsFor c h)) (R := fun _ _ _ => True) answers_exec
    (fun {c} _ _ => code_owns env c) p hp _ hk).1

end Meduman.Joint
