import Meduman.Dialog.Entitled

/-!
# Whom a chat message writes for

An attempt writes rows for the owner of the identity it read, or for the user it has just minted. A message
that connects with a code goes on to write for nobody.

* `handle_ownedBy`, `connect_ownerless` : a step writes for its sender, and `/connect` for nobody
* `writesFor` : the users an attempt may write for, by what it has read
* **`processInbound_owns`** : it writes for them only
-/

set_option autoImplicit false

namespace Meduman.Dialog

open Effect
open Chat (ChatAdapter ChatPlatform InboundMedia ChatInboundJobData)
open Linking (ChatIdentity)

/-- The user an operation makes an owner. -/
def Op.owner : Op → Option Uuid
  | .core op => Owning.owner op
  | .linking op => Owning.owner op
  | .sellers op => Owning.owner op
  | .chat (.evidenceCreate d) => some d.uploadedBy
  | _ => none

instance : Owning Op := ⟨Op.owner⟩

variable {α : Type} {env : Env} {c : Caller} {session : ChatSession} {v : Uuid}

/-! ## What other services do -/

theorem Uses.ownedBy {p : Program α} (hp : p.Uses Ownerless) : p.Uses (OwnedBy v) :=
  hp.mono fun _ hop => hop.ownedBy

theorem core_ownedBy {p : Meduman.Program α} (hp : p.Uses (OwnedBy v)) : (core p).Uses (OwnedBy v) :=
  uses_embed hp fun _ hop => hop

theorem core_ownerless {p : Meduman.Program α} (hp : p.Uses Ownerless) : (core p).Uses Ownerless :=
  uses_embed hp fun _ hop => hop

theorem linking_ownerless {p : Linking.Program α} (hp : p.Uses Ownerless) :
    (linking p).Uses Ownerless :=
  uses_embed hp fun _ hop => hop

theorem sellers_ownedBy {p : Sellers.Program α} (hp : p.Uses (OwnedBy v)) :
    (sellers p).Uses (OwnedBy v) :=
  uses_embed hp fun _ hop => hop

theorem otp_ownerless (p : Otp.Program α) : (otp p).Uses Ownerless :=
  uses_embed (uses_any p) fun _ _ => rfl

/-- One operation of the core. -/
theorem perform_ownerless {op : Meduman.Op} (hop : Ownerless op) :
    (core (Meduman.await op)).Uses Ownerless :=
  core_ownerless (uses_perform hop)

/-- A checkout makes its buyer an owner. -/
theorem initializeVirtualAccount_ownedBy (transactionId buyerId : Uuid) (email : String) :
    (initializeVirtualAccount transactionId buyerId email).Uses (OwnedBy buyerId) := by
  refine (initializeVirtualAccount_does transactionId buyerId email).mono fun op hdoes v hv => ?_
  have howns : Owns (.initializeVirtualAccount transactionId buyerId email) [] op :=
    owns_of_does hdoes (not_inserts rfl hdoes)
  exact (beq_iff_eq.mp (howns v hv)).symm

/-! ## Steps -/

theorem updateSession_ownerless (env : Env) (id : Uuid) (patch : SessionPatch) :
    (updateSession env id patch).Uses Ownerless := by
  unfold updateSession freshExpiry
  refine uses_bind (uses_bind (perform_ownerless rfl) fun _ => trivial) fun expiresAt => ?_
  exact uses_bind (uses_perform rfl) fun _ => trivial

theorem captureTitle_ownerless (text : String) : (captureTitle env c session text).Uses Ownerless := by
  unfold captureTitle
  split
  · trivial
  · exact uses_bind (updateSession_ownerless env _ _) fun _ => trivial

theorem captureAmount_ownerless (text : String) :
    (captureAmount env c session text).Uses Ownerless := by
  unfold captureAmount
  split
  · trivial
  · exact uses_bind (updateSession_ownerless env _ _) fun _ => trivial

/-- The sale a chat describes is its sender's. -/
theorem chat_sellerId {userId : Uuid} {draft : Meduman.ChatDraft} {text : String}
    {origin : TransactionOrigin} {input : CreateDraftInput}
    (h : (Entrypoint.chat userId draft text origin).draft = some input) : input.sellerId = userId := by
  simp only [Entrypoint.draft] at h
  split at h
  · cases h
    rfl
  · cases h

theorem captureDescriptionAndCreate_ownedBy (text : String) :
    (captureDescriptionAndCreate env c session text).Uses (OwnedBy c.userId) := by
  unfold captureDescriptionAndCreate
  split
  · exact uses_bind (Uses.ownedBy (updateSession_ownerless env _ _)) fun _ => trivial
  · rename_i input hdraft
    have hcreate := createDraft_ownedBy input
    rw [chat_sellerId hdraft] at hcreate
    refine uses_bind (core_ownedBy hcreate) fun tx => ?_
    refine uses_bind (Uses.ownedBy (core_ownerless (apply_ownerless _))) fun _ => ?_
    refine uses_bind (Uses.ownedBy (updateSession_ownerless env _ _)) fun _ => ?_
    exact uses_bind (sellers_ownedBy (Sellers.getOrCreate_ownedBy _)) fun _ => trivial

theorem capturePayoutAccount_ownedBy (text : String) :
    (capturePayoutAccount env c text).Uses (OwnedBy c.userId) := by
  have hupdate : (updateSession env c.identity.id { step := some .idle }).Uses (OwnedBy c.userId) :=
    Uses.ownedBy (updateSession_ownerless env _ _)
  unfold capturePayoutAccount
  split
  · refine uses_tryCatch ?_ fun _ => uses_bind hupdate fun _ => trivial
    refine uses_bind (sellers_ownedBy (Sellers.createTransferRecipient_ownedBy _ _)) fun profile => ?_
    exact uses_bind hupdate fun _ => trivial
  · trivial

theorem startPayment_ownedBy (linkCode : String) :
    (startPayment env c linkCode).Uses (OwnedBy c.userId) := by
  unfold startPayment
  split
  · trivial
  · refine uses_bind (Uses.ownedBy (perform_ownerless rfl)) fun found => ?_
    cases found with
    | none => trivial
    | some tx =>
        dsimp only
        split
        · trivial
        · refine uses_tryCatch ?_ fun _ => trivial
          refine uses_bind (core_ownedBy (initializeVirtualAccount_ownedBy _ _ _)) fun account => ?_
          exact uses_bind (Uses.ownedBy (updateSession_ownerless env _ _)) fun _ => trivial

theorem parseUuid_ownerless (text : String) : (parseUuid text).Uses Ownerless := by
  unfold parseUuid
  split <;> trivial

theorem startDelivery_ownerless (tx : Transaction) : (startDelivery c tx).Uses Ownerless := by
  unfold startDelivery
  split
  · exact uses_bind (core_ownerless (apply_ownerless _)) fun _ => trivial
  · trivial

theorem markDelivered_ownerless (arg : String) :
    (markDelivered env c session arg).Uses Ownerless := by
  unfold markDelivered
  split
  · trivial
  · refine uses_bind (parseUuid_ownerless _) fun id => ?_
    refine uses_bind (perform_ownerless rfl) fun found => ?_
    cases found with
    | none => trivial
    | some tx =>
        dsimp only
        split
        · trivial
        · refine uses_tryCatch ?_ fun e => by split <;> trivial
          refine uses_bind (startDelivery_ownerless tx) fun _ => ?_
          refine uses_bind (core_ownerless (apply_ownerless _)) fun _ => ?_
          exact uses_bind (otp_ownerless _) fun _ => trivial

theorem tryConfirmOtp_ownerless (code : String) : (tryConfirmOtp env c code).Uses Ownerless := by
  unfold tryConfirmOtp
  refine uses_bind (uses_perform rfl) fun found => ?_
  cases found with
  | none => trivial
  | some tx =>
      dsimp only
      refine uses_bind (uses_tryCatch (uses_bind (otp_ownerless _) fun _ => trivial) fun e => ?_)
        fun refused => ?_
      · split <;> trivial
      · split
        · trivial
        · refine uses_bind (core_ownerless (apply_ownerless _)) fun _ => ?_
          exact uses_bind (perform_ownerless rfl) fun _ => trivial

theorem raiseDispute_ownedBy (arg : String) :
    (raiseDispute env c session arg).Uses (OwnedBy c.userId) := by
  unfold raiseDispute
  split
  · trivial
  · refine uses_bind (Uses.ownedBy (perform_ownerless rfl)) fun found => ?_
    cases found with
    | none => trivial
    | some tx =>
        dsimp only
        split
        · trivial
        · refine uses_tryCatch ?_ fun _ => trivial
          refine uses_bind (core_ownedBy (raise_ownedBy (complaint c tx arg))) fun dispute => ?_
          exact uses_bind (Uses.ownedBy (updateSession_ownerless env _ _)) fun _ => trivial

theorem showStatus_ownerless (arg : String) : (showStatus c session arg).Uses Ownerless := by
  unfold showStatus
  split
  · trivial
  · refine uses_bind (parseUuid_ownerless _) fun id => ?_
    refine uses_bind (perform_ownerless rfl) fun found => ?_
    cases found with
    | none => trivial
    | some tx =>
        dsimp only
        split <;> trivial

theorem connectAccount_ownerless (arg : String) : (connectAccount env c arg).Uses Ownerless := by
  unfold connectAccount
  split
  · trivial
  · exact uses_bind (linking_ownerless (Linking.consume_ownerless _ _ _)) fun _ => trivial

/-! ## Attachments -/

theorem findCurrentDispute_ownerless : (findCurrentDispute c session).Uses Ownerless := by
  unfold findCurrentDispute
  split
  · trivial
  · refine uses_bind (perform_ownerless rfl) fun found => ?_
    cases found with
    | none => trivial
    | some tx =>
        dsimp only
        split
        · trivial
        · exact uses_perform rfl

theorem findEvidenceDispute_ownerless : (findEvidenceDispute c session).Uses Ownerless := by
  unfold findEvidenceDispute
  split
  · exact findCurrentDispute_ownerless
  · refine uses_bind (perform_ownerless rfl) fun found => ?_
    cases found with
    | none => exact findCurrentDispute_ownerless
    | some dispute =>
        dsimp only
        split
        · trivial
        · exact findCurrentDispute_ownerless

theorem capture_ownedBy (media : InboundMedia) (ctx : CaptureEvidenceContext) :
    (capture media ctx).Uses (OwnedBy ctx.uploadedBy) := by
  unfold capture
  refine uses_bind (uses_perform (Ownerless.ownedBy rfl)) fun file => ?_
  split
  · trivial
  · refine uses_bind (Uses.ownedBy (perform_ownerless rfl)) fun uuid => ?_
    refine uses_bind (uses_perform (Ownerless.ownedBy rfl)) fun _ => ?_
    exact uses_bind (uses_perform (ownedBy_of_owner rfl)) fun _ => trivial

theorem captureAll_ownedBy (ctx : CaptureEvidenceContext) (media : List InboundMedia) (stored : Nat) :
    (captureAll ctx media stored).Uses (OwnedBy ctx.uploadedBy) := by
  induction media generalizing stored with
  | nil => trivial
  | cons media rest ih =>
      refine uses_bind (uses_tryCatch (uses_bind (capture_ownedBy media ctx) fun _ => trivial)
        fun e => ?_) fun failure => ?_
      · split <;> trivial
      · cases failure with
        | some reply => trivial
        | none => exact ih _

theorem handleMedia_ownedBy (adapter : ChatAdapter) (media : List InboundMedia) :
    (handleMedia env adapter c session media).Uses (OwnedBy c.userId) := by
  unfold handleMedia
  split
  · trivial
  · refine uses_bind (Uses.ownedBy findEvidenceDispute_ownerless) fun found => ?_
    cases found with
    | none => trivial
    | some dispute =>
        refine uses_bind (captureAll_ownedBy ⟨dispute.transactionId, dispute.id, c.userId⟩ media 0)
          fun captured => ?_
        cases captured with
        | inl reply => trivial
        | inr stored =>
            exact uses_bind (Uses.ownedBy (updateSession_ownerless env _ _)) fun _ => trivial

/-! ## The step machine -/

theorem handleCommand_ownedBy (text : String) :
    (handleCommand env c session text).Uses (OwnedBy c.userId) := by
  unfold handleCommand
  dsimp only
  split
  · trivial
  · trivial
  · exact uses_bind (Uses.ownedBy (updateSession_ownerless env _ _)) fun _ => trivial
  · exact uses_bind (Uses.ownedBy (updateSession_ownerless env _ _)) fun _ => trivial
  · exact uses_bind (Uses.ownedBy (updateSession_ownerless env _ _)) fun _ => trivial
  · exact startPayment_ownedBy _
  · exact Uses.ownedBy (markDelivered_ownerless _)
  · exact raiseDispute_ownedBy _
  · exact Uses.ownedBy (connectAccount_ownerless _)
  · exact Uses.ownedBy (showStatus_ownerless _)
  · trivial

theorem handleStep_ownedBy (text : String) :
    (handleStep env c session text).Uses (OwnedBy c.userId) := by
  unfold handleStep
  split
  · exact Uses.ownedBy (captureTitle_ownerless _)
  · exact Uses.ownedBy (captureAmount_ownerless _)
  · exact captureDescriptionAndCreate_ownedBy _
  · exact capturePayoutAccount_ownedBy _
  · exact uses_bind (Uses.ownedBy (updateSession_ownerless env _ _)) fun _ => trivial
  all_goals
    split
    · exact Uses.ownedBy (tryConfirmOtp_ownerless _)
    · trivial

/-- **A step writes for its sender.** -/
theorem handle_ownedBy (adapter : ChatAdapter) (job : ChatInboundJobData) :
    (handle env adapter c session job).Uses (OwnedBy c.userId) := by
  unfold handle
  dsimp only
  generalize saidIn job = text
  split
  · exact handleMedia_ownedBy _ _
  · split
    · exact handleCommand_ownedBy _
    · exact handleStep_ownedBy _

/-- The message connects with a code. -/
def connects (job : ChatInboundJobData) : Bool :=
  isCommand (saidIn job) && (words (saidIn job)).head? == some "/connect"

theorem handleCommand_ownerless {text : String} (hhead : (words text).head? = some "/connect") :
    (handleCommand env c session text).Uses Ownerless := by
  have hconnect := @connectAccount_ownerless env c (" ".intercalate ((words text).drop 1))
  unfold handleCommand
  rw [hhead]
  exact hconnect

/-- **`/connect` writes for nobody.** -/
theorem connect_ownerless (adapter : ChatAdapter) {job : ChatInboundJobData}
    (hconnects : connects job = true) : (handle env adapter c session job).Uses Ownerless := by
  unfold connects at hconnects
  unfold handle
  dsimp only
  generalize saidIn job = text at hconnects ⊢
  obtain ⟨hcommand, hhead⟩ := Bool.and_eq_true_iff.mp hconnects
  rw [hcommand, if_neg (by simp), if_pos rfl]
  exact handleCommand_ownerless (beq_iff_eq.mp hhead)

/-! ## An attempt -/

/-- The users an attempt may write for: whom it minted and has yet to give an identity, and the owner of the
identity it read, unless it connects. -/
def writesFor (job : ChatInboundJobData) (h : Hist) (u : Uuid) : Bool :=
  Linking.nameless (h.filterMap linkingEvent) u ||
    !connects job && h.any fun e => (identityRead e).any fun i => i.userId == u

/-- A row an operation writes is for a user its attempt may write for. -/
abbrev Owns (job : ChatInboundJobData) (h : Hist) : Op → Prop := OwnedIn (writesFor job h)

variable {job : ChatInboundJobData} {h : Hist}

theorem freshExpiry_ownerless (env : Env) : (freshExpiry env).Uses Ownerless :=
  uses_bind (perform_ownerless rfl) fun _ => trivial

theorem getOrCreate_ownerless (env : Env) (id : Uuid) : (getOrCreate env id).Uses Ownerless := by
  have hcreate : (do
      let expiresAt ← freshExpiry env
      await (.chatSessionUpsert id expiresAt) : Program ChatSession).Uses Ownerless :=
    uses_bind (freshExpiry_ownerless env) fun _ => uses_perform rfl
  unfold getOrCreate
  refine uses_bind (uses_perform rfl) fun found => ?_
  cases found with
  | none => exact hcreate
  | some existing =>
      refine uses_bind (perform_ownerless rfl) fun now => ?_
      split
      · trivial
      · exact hcreate

/-- The identity of the sender is read, or made for whom was minted. -/
theorem setUp_owns (job : ChatInboundJobData) : (setUp env job).Along Answers (Owns job)
    (fun r h => ∀ a, r = .ok a → Read identityRead h a.1.identity) [] := by
  unfold setUp
  rw [along_bind]
  have hresolve : (linking (Linking.resolveOrCreate env.linking job.platform job.sender
      job.displayName)).Along Answers (Owns job)
      (fun r h => ∀ i, r = .ok i → Read identityRead h i) [] :=
    along_embed (List.filterMap linkingEvent) (fun op a h => rfl) (fun _ _ ha => ha)
      (fun h op hop u hu => by rw [writesFor, hop u hu, Bool.true_or])
      (fun a h hres i hi => by cases hi; exact read_of_linked (hres a rfl).1)
      (fun e h _ i hi => by cases hi) (resolveOrCreate_resolves env.linking job.displayName)
  refine hresolve.mono fun r h hr => ?_
  cases r with
  | error e => exact fun _ ha => by cases ha
  | ok identity =>
      rw [then_ok, along_perform_bind]
      refine ⟨Ownerless.ownedIn rfl, fun _ _ _ ha => (by cases ha), fun email _ => ?_⟩
      rw [along_bind]
      refine ((getOrCreate_ownerless env identity.id).along_from
        fun h' _ op hop => hop.ownedIn).mono fun r h' hs => ?_
      cases r with
      | error e => exact fun _ ha => by cases ha
      | ok session =>
          rintro _ ⟨⟩
          exact (hr identity rfl).suffix ((List.suffix_cons _ _).trans hs)

/-- **An attempt writes for whom it may.** -/
theorem processInbound_owns (job : ChatInboundJobData) :
    (processInbound env job).Along Answers (Owns job) (fun _ _ => True) [] := by
  unfold processInbound
  split
  · trivial
  · rename_i adapter _
    rw [along_bind]
    refine (setUp_owns job).mono fun r h hr => ?_
    cases r with
    | error e => trivial
    | ok a =>
        have hread := hr a rfl
        have hsend (reply : String) : (await (.send job.platform job.sender reply)).Uses Ownerless :=
          uses_perform rfl
        by_cases hconnects : connects job = true
        · have huses := uses_bind (@connect_ownerless env a.1 a.2 adapter job hconnects) hsend
          exact huses.along (fun _ _ hop => hop.ownedIn) fun _ _ _ => trivial
        · have huses := uses_bind (@handle_ownedBy env a.1 a.2 adapter job)
            fun reply => Uses.ownedBy (hsend reply)
          refine (huses.along_from fun h' hs op hop u hu => ?_).mono fun _ _ _ => trivial
          obtain ⟨e, he, hidentity⟩ := hread.suffix hs
          have hany : (h'.any fun e => (identityRead e).any fun i => i.userId == u) = true :=
            List.any_eq_true.mpr ⟨e, he, by simp [hidentity, hop u hu, Caller.userId]⟩
          simp [writesFor, hconnects, hany]

end Meduman.Dialog
