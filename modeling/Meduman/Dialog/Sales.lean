import Meduman.Dialog.Entitled

/-!
# What a chat sells

A sale is put together message by message: a title, a price, a description. Between two messages the
session holds what was said so far, whichever attempts run beside each other.

* `Fit` : a session holds what its step goes on from
* `Continues`, `GoesOn` : a draft goes on from the one before, by what a message says
* **`handle_goesOn`** : the handling of a message does nothing else
* `Said`, `Gathered`, `Sold` : what is in a draft, and in a sale, is what the chat's messages say
* **`conversation_run`** : so it is in every run
-/

set_option autoImplicit false

namespace Meduman.Dialog

open Effect
open Chat (ChatAdapter InboundMedia ChatInboundJobData IngestInput)
open Linking (ChatIdentity)

/-! ## Sessions -/

/-- The session holds what its step goes on from; no session waits for a code. -/
def Fit (s : ChatSession) : Prop :=
  match s.step with
  | .sellerTxAmount => ∃ title, (readDraft s).title = some title ∧ title ≠ ""
  | .sellerTxDescription => (∃ title, (readDraft s).title = some title ∧ title ≠ "") ∧
      (readDraft s).amountKobo.isSome
  | .disputeEvidence => s.disputeId.isSome ∧ s.transactionId.isSome
  | .buyerAwaitOtp => False
  | _ => True

/-- A session stays fit with the patch. -/
def SessionPatch.Fits (patch : SessionPatch) : Prop := ∀ t s, Fit s → Fit (patch.apply t s)

theorem fit_fresh (id : Uuid) (t : Int) : Fit (freshSession id t) := trivial

/-- The draft of a fit session is one the description completes. -/
theorem Fit.draft {s : ChatSession} (hs : Fit s) (hstep : s.step = .sellerTxDescription)
    (userId : Uuid) (text : String) (origin : TransactionOrigin) :
    ∃ input, (Entrypoint.chat userId (readDraft s).toChatDraft text origin).draft = some input := by
  unfold Fit at hs
  rw [hstep] at hs
  obtain ⟨⟨title, htitle, hne⟩, hamount⟩ := hs
  obtain ⟨kobo, hkobo⟩ := Option.isSome_iff_exists.mp hamount
  have h0 : kobo ≠ 0 := Int.ne_of_gt ((readDraft s).positive kobo hkobo)
  have htrue : truthy (some title) = some title := by simp [truthy, hne]
  have hfilter : (some kobo).filter (· ≠ 0) = some kobo := by simp [h0]
  simp only [Entrypoint.draft, htitle, hkobo, htrue, hfilter]
  exact ⟨_, rfl⟩

/-- A patch that only moves on to a step that needs nothing. -/
theorem fits_step {step : ChatStep} (hstep : step ∈ [.idle, .sellerTxTitle, .sellerPayoutAccount])
    {patch : SessionPatch} (hpatch : patch.step = some step) : patch.Fits := by
  intro t s _
  simp only [List.mem_cons, List.not_mem_nil, or_false] at hstep
  unfold Fit SessionPatch.apply
  simp only [hpatch, Option.getD_some]
  rcases hstep with rfl | rfl | rfl <;> trivial

/-- A patch that only remembers a transaction. -/
theorem fits_transaction (id : Uuid) : SessionPatch.Fits { transactionId := some (some id) } := by
  intro t s hs
  obtain ⟨chat, step, draft, transactionId, expiresAt⟩ := s
  cases step with
  | disputeEvidence => exact ⟨hs.1, rfl⟩
  | _ => exact hs

/-! ## Drafts -/

/-- The draft goes on from the other one, by what a message says. -/
structure Continues (said : String) (d₀ d : ChatDraft) : Prop where
  title : ∀ title, d.title = some title →
    d₀.title = some title ∨ said ≠ "" ∧ title = slice said 120
  amount : ∀ kobo, d.amountKobo = some kobo →
    d₀.amountKobo = some kobo ∨ parseNairaToKobo said = some kobo

theorem Continues.refl (said : String) (d : ChatDraft) (disputeId : Option Uuid) :
    Continues said d { d with disputeId := disputeId } where
  title _ h := .inl h
  amount _ h := .inl h

/-- A step of the conversation of this caller: a patch of their session that goes on with its draft, or the
sale of a draft that is complete. -/
def GoesOn (c : Caller) (session : ChatSession) (said : String) : Op → Prop
  | .chat (.chatSessionUpdate id patch _) => id = session.chatIdentityId ∧ (Fit session → patch.Fits) ∧
      ∀ d, patch.draft = some (some d) → Continues said (readDraft session) d
  | .core (.transactionCreate d) => session.step = .sellerTxDescription ∧ ∃ input link,
      (Entrypoint.chat c.userId (readDraft session).toChatDraft said
        (originOf c.identity.platform)).draft = some input ∧ d = input.create link
  | _ => True

/-- Neither touches a session nor sells. -/
def Quiet : Op → Prop
  | .chat (.chatSessionUpdate ..) | .core (.transactionCreate _) => False
  | _ => True

variable {α : Type} {c : Caller} {session : ChatSession} {said : String} {env : Env}

theorem Quiet.goesOn {op : Op} (h : Quiet op) : GoesOn c session said op := by
  cases op with
  | core op => cases op with
    | transactionCreate d => exact h.elim
    | _ => trivial
  | chat op => cases op with
    | chatSessionUpdate id patch t => exact h.elim
    | _ => trivial
  | _ => trivial

theorem Uses.goesOn {p : Program α} (hp : p.Uses Quiet) : p.Uses (GoesOn c session said) :=
  hp.mono fun _ h => h.goesOn

/-! ## What neither touches a session nor sells -/

theorem linking_quiet (p : Linking.Program α) : (linking p).Uses Quiet :=
  uses_embed (uses_any p) fun _ _ => trivial

theorem otp_quiet (p : Otp.Program α) : (otp p).Uses Quiet :=
  uses_embed (uses_any p) fun _ _ => trivial

/-- Only two calls of the core create a transaction. -/
theorem core_quiet {k : Meduman.Call} {p : Meduman.Program α} (hp : p.Uses k.Does)
    (hcreate : ∀ r, k ≠ .create r) (hsend : ∀ sellerId id, k ≠ .sendInvoice sellerId id) :
    (core p).Uses Quiet := by
  refine uses_embed hp fun op hop => ?_
  cases op with
  | transactionCreate d =>
      obtain ⟨r, h⟩ | ⟨sellerId, id, h⟩ := hop.2
      · exact hcreate r h
      · exact hsend sellerId id h
  | _ => trivial

theorem apply_quiet (input : ApplyTransitionInput) : (core (apply input)).Uses Quiet :=
  core_quiet (k := .drive input) (apply_does rfl) (fun _ h => by cases h) fun _ _ h => by cases h

theorem perform_quiet {op : Meduman.Op} (hop : Quiet (.core op)) :
    (core (Meduman.await op)).Uses Quiet :=
  uses_embed (A := fun op' => op' = op) (uses_perform rfl) fun _ h => h ▸ hop

theorem await_quiet {op : ChatOp} (hop : Quiet (.chat op)) : (await op).Uses Quiet :=
  uses_perform hop

theorem parseUuid_quiet (text : String) : (parseUuid text).Uses Quiet := by
  unfold parseUuid
  split <;> trivial

theorem sellers_quiet {α : Type} (p : Sellers.Program α) : (sellers p).Uses Quiet :=
  uses_embed (uses_any p) fun _ _ => trivial

theorem startDelivery_quiet (c : Caller) (tx : Transaction) : (startDelivery c tx).Uses Quiet := by
  unfold startDelivery
  split
  · exact uses_bind (apply_quiet _) fun _ => trivial
  · trivial

theorem markDelivered_quiet (env : Env) (c : Caller) (session : ChatSession) (arg : String) :
    (markDelivered env c session arg).Uses Quiet := by
  unfold markDelivered
  split
  · trivial
  · refine uses_bind (parseUuid_quiet _) fun id => uses_bind (perform_quiet trivial) fun found => ?_
    cases found with
    | none => trivial
    | some tx =>
        dsimp only
        split
        · trivial
        · refine uses_tryCatch (uses_bind (startDelivery_quiet c tx) fun _ => ?_) fun e => ?_
          · refine uses_bind (apply_quiet _) fun _ => ?_
            exact uses_bind (otp_quiet _) fun _ => trivial
          · split <;> trivial

theorem tryConfirmOtp_quiet (env : Env) (c : Caller) (code : String) :
    (tryConfirmOtp env c code).Uses Quiet := by
  unfold tryConfirmOtp
  refine uses_bind (await_quiet trivial) fun found => ?_
  cases found with
  | none => trivial
  | some tx =>
      refine uses_bind (uses_tryCatch (uses_bind (otp_quiet _) fun _ => trivial) fun e => ?_)
        fun refused => ?_
      · split <;> trivial
      · split
        · trivial
        · refine uses_bind (apply_quiet _) fun _ => ?_
          exact uses_bind (perform_quiet trivial) fun _ => trivial

theorem findCurrentDispute_quiet (c : Caller) (session : ChatSession) :
    (findCurrentDispute c session).Uses Quiet := by
  unfold findCurrentDispute
  split
  · trivial
  · refine uses_bind (perform_quiet trivial) fun found => ?_
    cases found with
    | none => trivial
    | some tx =>
        dsimp only
        split
        · trivial
        · exact await_quiet trivial

theorem findEvidenceDispute_quiet (c : Caller) (session : ChatSession) :
    (findEvidenceDispute c session).Uses Quiet := by
  unfold findEvidenceDispute
  split
  · exact findCurrentDispute_quiet c session
  · refine uses_bind (perform_quiet trivial) fun found => ?_
    cases found with
    | none => exact findCurrentDispute_quiet c session
    | some dispute =>
        dsimp only
        split
        · trivial
        · exact findCurrentDispute_quiet c session

theorem capture_quiet (media : InboundMedia) (ctx : CaptureEvidenceContext) :
    (capture media ctx).Uses Quiet := by
  unfold capture
  refine uses_bind (await_quiet trivial) fun file => ?_
  split
  · trivial
  · refine uses_bind (perform_quiet trivial) fun uuid => uses_bind (await_quiet trivial) fun _ => ?_
    exact uses_bind (await_quiet trivial) fun _ => trivial

theorem captureAll_quiet (ctx : CaptureEvidenceContext) (media : List InboundMedia) (stored : Nat) :
    (captureAll ctx media stored).Uses Quiet := by
  induction media generalizing stored with
  | nil => trivial
  | cons m rest ih =>
      refine uses_bind (uses_tryCatch (uses_bind (capture_quiet m ctx) fun _ => trivial) fun e => ?_)
        fun failure => ?_
      · split <;> trivial
      · cases failure with
        | some reply => trivial
        | none => exact ih (stored + 1)

theorem showStatus_quiet (c : Caller) (session : ChatSession) (arg : String) :
    (showStatus c session arg).Uses Quiet := by
  unfold showStatus
  split
  · trivial
  · refine uses_bind (parseUuid_quiet _) fun id => uses_bind (perform_quiet trivial) fun found => ?_
    cases found with
    | none => trivial
    | some tx =>
        dsimp only
        split <;> trivial

theorem connectAccount_quiet (env : Env) (c : Caller) (arg : String) :
    (connectAccount env c arg).Uses Quiet := by
  unfold connectAccount
  split
  · trivial
  · exact uses_bind (linking_quiet _) fun _ => trivial

/-! ## What goes on with a conversation -/

theorem updateSession_goesOn {patch : SessionPatch} (hfits : Fit session → patch.Fits)
    (hdraft : ∀ d, patch.draft = some (some d) → Continues said (readDraft session) d) :
    (updateSession env session.chatIdentityId patch).Uses (GoesOn c session said) := by
  unfold updateSession freshExpiry
  refine uses_bind (Uses.goesOn (uses_bind (perform_quiet trivial) fun _ => trivial)) fun t => ?_
  exact uses_bind (uses_perform ⟨rfl, hfits, hdraft⟩) fun _ => trivial

/-- A patch without a draft. -/
theorem move_goesOn {patch : SessionPatch} (hfits : patch.Fits) (hdraft : patch.draft.join = none) :
    (updateSession env session.chatIdentityId patch).Uses (GoesOn c session said) := by
  refine updateSession_goesOn (fun _ => hfits) fun d hd => ?_
  rw [hd] at hdraft
  cases hdraft

theorem resetSession_goesOn :
    (resetSession env session.chatIdentityId).Uses (GoesOn c session said) :=
  move_goesOn (fits_step (by simp) rfl) rfl

theorem slice_ne_empty {s : String} (h : s ≠ "") (n : Nat) : slice s (n + 1) ≠ "" := by
  intro hslice
  cases hs : s.toList with
  | nil => exact h (String.toList_eq_nil_iff.mp hs)
  | cons a l =>
      have := congrArg String.toList hslice
      simp [slice, hs] at this

theorem captureTitle_goesOn (hown : session.chatIdentityId = c.identity.id) :
    (captureTitle env c session said).Uses (GoesOn c session said) := by
  unfold captureTitle
  split
  · trivial
  · rename_i draft hdraft
    unfold Meduman.captureTitle at hdraft
    split at hdraft
    · cases hdraft
    · rename_i hsaid
      cases hdraft
      rw [← hown]
      refine uses_bind (updateSession_goesOn (fun _ t s _ => ?_) fun d hd => ?_) fun _ => trivial
      · exact ⟨slice said 120, rfl, slice_ne_empty hsaid 119⟩
      · cases hd
        exact ⟨fun title h => .inr ⟨hsaid, (Option.some.inj h).symm⟩, fun _ h => .inl h⟩

theorem captureAmount_goesOn (hown : session.chatIdentityId = c.identity.id)
    (hstep : session.step = .sellerTxAmount) :
    (captureAmount env c session said).Uses (GoesOn c session said) := by
  unfold captureAmount
  split
  · trivial
  · rename_i draft hdraft
    unfold Meduman.captureAmount at hdraft
    split at hdraft
    · cases hdraft
    · rename_i kobo hkobo
      split at hdraft
      · cases hdraft
      · cases hdraft
        rw [← hown]
        refine uses_bind (updateSession_goesOn (fun hfit t s _ => ?_) fun d hd => ?_)
          fun _ => trivial
        · unfold Fit at hfit
          rw [hstep] at hfit
          exact ⟨hfit, rfl⟩
        · cases hd
          refine ⟨fun _ h => .inl h, fun k h => .inr ?_⟩
          rw [hkobo, ← h]

theorem captureDescriptionAndCreate_goesOn (hown : session.chatIdentityId = c.identity.id)
    (hstep : session.step = .sellerTxDescription) :
    (captureDescriptionAndCreate env c session said).Uses (GoesOn c session said) := by
  unfold captureDescriptionAndCreate
  split
  · rw [← hown]
    exact uses_bind resetSession_goesOn fun _ => trivial
  · rename_i input hinput
    have hcreate : (createDraft input).Uses fun op =>
        (∃ link, op = .transactionCreate (input.create link)) ∨ Quiet (.core op) := by
      unfold createDraft
      refine uses_bind (uses_perform (.inr trivial)) fun uuid => ?_
      refine uses_bind (uses_perform (.inl ⟨uuid.hex, rfl⟩)) fun tx => ?_
      refine uses_bind ?_ fun _ => trivial
      unfold grantRoleFlag
      refine uses_bind (uses_perform (.inr trivial)) fun found => ?_
      cases found with
      | none => trivial
      | some user =>
          dsimp only
          split
          · trivial
          · exact uses_perform (.inr trivial)
    refine uses_bind (uses_embed hcreate fun op hop => ?_) fun tx => ?_
    · rcases hop with ⟨link, rfl⟩ | hquiet
      · exact ⟨hstep, input, link, hinput, rfl⟩
      · exact hquiet.goesOn
    · refine uses_bind (Uses.goesOn (apply_quiet _)) fun _ => ?_
      rw [← hown]
      refine uses_bind (move_goesOn (fits_step (by simp) rfl) rfl) fun _ => ?_
      exact uses_bind (Uses.goesOn (sellers_quiet _)) fun _ => trivial

theorem capturePayoutAccount_goesOn (hown : session.chatIdentityId = c.identity.id) (text : String) :
    (capturePayoutAccount env c text).Uses (GoesOn c session said) := by
  unfold capturePayoutAccount
  rw [← hown]
  split
  · refine uses_tryCatch ?_ fun _ => ?_
    · refine uses_bind (Uses.goesOn (sellers_quiet _)) fun profile => ?_
      exact uses_bind (move_goesOn (fits_step (by simp) rfl) rfl) fun _ => trivial
    · exact uses_bind (move_goesOn (fits_step (by simp) rfl) rfl) fun _ => trivial
  · trivial

theorem startPayment_goesOn (hown : session.chatIdentityId = c.identity.id) (linkCode : String) :
    (startPayment env c linkCode).Uses (GoesOn c session said) := by
  unfold startPayment
  split
  · trivial
  · refine uses_bind (Uses.goesOn (perform_quiet trivial)) fun found => ?_
    cases found with
    | none => trivial
    | some tx =>
        dsimp only
        split
        · trivial
        · refine uses_tryCatch (uses_bind (Uses.goesOn ?_) fun account => ?_) fun _ => trivial
          · exact core_quiet (initializeVirtualAccount_does tx.id c.userId c.email)
              (fun _ h => by cases h) fun _ _ h => by cases h
          · rw [← hown]
            exact uses_bind (move_goesOn (fits_transaction tx.id) rfl) fun _ => trivial

/-- A session goes to collect evidence with its dispute and its transaction. -/
theorem evidence_goesOn (disputeId transactionId : Uuid) :
    (updateSession env session.chatIdentityId
      { step := some .disputeEvidence
        draft := some (some { readDraft session with disputeId := some disputeId })
        transactionId := some (some transactionId) }).Uses (GoesOn c session said) := by
  refine updateSession_goesOn (fun _ t s _ => ⟨rfl, rfl⟩) fun d hd => ?_
  cases hd
  exact .refl said _ _

theorem raiseDispute_goesOn (arg : String) :
    (raiseDispute env c session arg).Uses (GoesOn c session said) := by
  unfold raiseDispute
  split
  · trivial
  · refine uses_bind (Uses.goesOn (perform_quiet trivial)) fun found => ?_
    cases found with
    | none => trivial
    | some tx =>
        dsimp only
        split
        · trivial
        · refine uses_tryCatch (uses_bind (Uses.goesOn ?_) fun d => ?_) fun _ => trivial
          · exact core_quiet (raise_does _) (fun _ h => by cases h) fun _ _ h => by cases h
          · exact uses_bind (evidence_goesOn d.id tx.id) fun _ => trivial

theorem handleMedia_goesOn (hown : session.chatIdentityId = c.identity.id) (adapter : ChatAdapter)
    (media : List InboundMedia) :
    (handleMedia env adapter c session media).Uses (GoesOn c session said) := by
  unfold handleMedia
  split
  · trivial
  · refine uses_bind (Uses.goesOn (findEvidenceDispute_quiet c session)) fun found => ?_
    cases found with
    | none => trivial
    | some d =>
        refine uses_bind (Uses.goesOn (captureAll_quiet _ media 0)) fun r => ?_
        cases r with
        | inl reply => trivial
        | inr stored =>
            rw [← hown]
            exact uses_bind (evidence_goesOn d.id d.transactionId) fun _ => trivial

/-! ## The step machine -/

theorem handleCommand_goesOn (hown : session.chatIdentityId = c.identity.id) (text : String) :
    (handleCommand env c session text).Uses (GoesOn c session said) := by
  unfold handleCommand
  dsimp only
  split
  · trivial
  · trivial
  · rw [← hown]
    exact uses_bind resetSession_goesOn fun _ => trivial
  · rw [← hown]
    refine uses_bind (updateSession_goesOn (fun _ => fits_step (by simp) rfl) fun d hd => ?_)
      fun _ => trivial
    cases hd
    exact ⟨fun _ h => (by cases h), fun _ h => by cases h⟩
  · rw [← hown]
    exact uses_bind (move_goesOn (fits_step (by simp) rfl) rfl) fun _ => trivial
  · exact startPayment_goesOn hown _
  · exact Uses.goesOn (markDelivered_quiet env c session _)
  · exact raiseDispute_goesOn _
  · exact Uses.goesOn (connectAccount_quiet env c _)
  · exact Uses.goesOn (showStatus_quiet c session _)
  · trivial

theorem handleStep_goesOn (hown : session.chatIdentityId = c.identity.id) :
    (handleStep env c session said).Uses (GoesOn c session said) := by
  unfold handleStep
  split
  · exact captureTitle_goesOn hown
  · rename_i hstep
    exact captureAmount_goesOn hown hstep
  · rename_i hstep
    exact captureDescriptionAndCreate_goesOn hown hstep
  · exact capturePayoutAccount_goesOn hown said
  · rw [← hown]
    exact uses_bind (move_goesOn (fits_step (by simp) rfl) rfl) fun _ => trivial
  · split
    · exact Uses.goesOn (tryConfirmOtp_quiet env c said)
    · trivial
  · split
    · exact Uses.goesOn (tryConfirmOtp_quiet env c said)
    · trivial

/-- **The handling of a message** goes on with the conversation by what the message says, or sells what the
conversation has gathered. -/
theorem handle_goesOn (hown : session.chatIdentityId = c.identity.id) (adapter : ChatAdapter)
    (job : ChatInboundJobData) :
    (handle env adapter c session job).Uses (GoesOn c session (saidIn job)) := by
  unfold handle
  dsimp only
  generalize saidIn job = text
  by_cases hmedia : (!job.media.isEmpty && !isCommand text) = true
  · rw [if_pos hmedia]
    exact handleMedia_goesOn hown adapter job.media
  · rw [if_neg hmedia]
    by_cases hcommand : isCommand text = true
    · rw [if_pos hcommand]
      exact handleCommand_goesOn hown text
    · rw [if_neg hcommand]
      exact handleStep_goesOn hown

/-! ## Attempts -/

theorem getOrCreate_quiet (env : Env) (id : Uuid) : (getOrCreate env id).Uses Quiet := by
  have hcreate : (do
      let expiresAt ← freshExpiry env
      await (.chatSessionUpsert id expiresAt) : Program ChatSession).Uses Quiet := by
    unfold freshExpiry
    exact uses_bind (uses_bind (perform_quiet trivial) fun _ => trivial) fun t => await_quiet trivial
  unfold getOrCreate
  refine uses_bind (await_quiet trivial) fun found => ?_
  cases found with
  | none => exact hcreate
  | some existing =>
      refine uses_bind (perform_quiet trivial) fun now => ?_
      split
      · trivial
      · exact hcreate

theorem setUp_quiet (env : Env) (job : ChatInboundJobData) : (setUp env job).Uses Quiet := by
  unfold setUp
  refine uses_bind (linking_quiet _) fun identity => uses_bind (await_quiet trivial) fun email => ?_
  exact uses_bind (getOrCreate_quiet env identity.id) fun _ => trivial

/-- An attempt goes on with the conversation it has read. -/
def Attempts (call : Call) (h : Hist) (op : Op) : Prop :=
  Quiet op ∨ ∃ job data c session, call = .attempt job data ∧ Known h c session ∧
    FromSender data c.identity ∧ GoesOn c session (saidIn data) op

theorem processInbound_attempts (job : Nat) (data : ChatInboundJobData) :
    (processInbound env data).Along Answers (Attempts (.attempt job data)) (fun _ _ => True) [] := by
  unfold processInbound
  split
  · trivial
  · rw [along_bind]
    refine ((setUp_known data).uses (setUp_quiet env data) fun _ _ _ => .inl).mono fun r h hr => ?_
    cases r with
    | error e => trivial
    | ok a =>
        obtain ⟨c, session⟩ := a
        obtain ⟨hk, hsender⟩ : Known h c session ∧ FromSender data c.identity := hr _ rfl
        refine (Prog.Uses.along_from (h := h) (uses_bind (handle_goesOn hk.own _ data) fun reply => ?_)
          fun h' hs op hop => ?_).mono fun _ _ _ => trivial
        · exact Uses.goesOn (await_quiet trivial)
        · exact .inr ⟨job, data, c, session, rfl, hk.suffix hs, hsender, hop⟩

theorem code_attempts (call : Call) :
    (code env call).Along Answers (Attempts call) (fun _ _ => True) [] := by
  cases call with
  | ingest input =>
      have hquiet : (Reply.ingested <$> gateway (Chat.ingest env.gateway input) :
          Program Reply).Uses Quiet :=
        uses_bind (uses_embed (uses_any _) fun _ _ => trivial) fun _ => trivial
      exact hquiet.along (fun _ _ => .inl) fun _ _ _ => trivial
  | attempt job data =>
      show (processInbound env data >>= fun _ => _).Along _ _ _ _
      rw [along_bind]
      refine (processInbound_attempts job data).mono fun r h _ => ?_
      cases r <;> trivial

/-- What an attempt is about to do. -/
theorem attempts_of_reaches {x : Config (worker env)} (hx : Reaches Guard.free ⟨World.initial, []⟩ x)
    {p : Process (worker env)} (hp : p ∈ x.procs) {op : Op}
    {k : Except Err op.Ans → Program Reply} (hk : p.prog = some (.call op k)) :
    Attempts p.call p.hist op :=
  (hx.along (P := Answers) (J := Attempts) (R := fun _ _ _ => True) answers_exec
    (fun _ => code_attempts _) p hp _ hk).1

/-! ## What the messages of a chat say -/

/-- The attempt of a message has read the identity of its sender. -/
def Sends (h : Hist) (data : ChatInboundJobData) (id : Uuid) : Prop :=
  ∃ i, Read identityRead h i ∧ FromSender data i ∧ i.id = id

/-- A message of the chat that was attempted says something like this. -/
def Said (procs : List (Process (worker env))) (id : Uuid) (P : String → Prop) : Prop :=
  ∃ p ∈ procs, ∃ job data, p.call = .attempt job data ∧ Sends p.hist data id ∧ P (saidIn data)

/-- What is in the draft is what the chat's messages say. -/
structure Gathered (procs : List (Process (worker env))) (id : Uuid) (d : ChatDraft) : Prop where
  title : ∀ title, d.title = some title →
    Said procs id fun said => said ≠ "" ∧ title = slice said 120
  amount : ∀ kobo, d.amountKobo = some kobo →
    Said procs id fun said => parseNairaToKobo said = some kobo

/-- A session that is fit, with what was gathered for it. -/
structure Conversation (procs : List (Process (worker env))) (s : ChatSession) : Prop where
  fit : Fit s
  gathered : Gathered procs s.chatIdentityId (readDraft s)

/-- The sale an attempt of a message makes: the sender sells, what messages of the same chat named and priced,
and this one describes. -/
structure Sold (procs : List (Process (worker env))) (data : ChatInboundJobData) (i : ChatIdentity)
    (d : TransactionCreate) : Prop where
  sender : FromSender data i
  seller : d.sellerId = i.userId
  origin : d.origin = originOf i.platform
  title : Said procs i.id fun said => said ≠ "" ∧ d.title = slice said 120
  amount : Said procs i.id fun said => parseNairaToKobo said = some d.amount
  positive : 0 < d.amount
  description : d.description =
    if isSkip (saidIn data) then none else truthy (some (slice (saidIn data) 500))
  status : d.status = .draft
  merchantId : d.merchantId = none

variable {x y : Config (worker env)} {l : Label (worker env)} {id : Uuid}

theorem Sends.suffix {h h' : Hist} {data : ChatInboundJobData} (hsends : Sends h data id) (hs : h <:+ h') :
    Sends h' data id := by
  obtain ⟨i, hread, hrest⟩ := hsends
  exact ⟨i, hread.suffix hs, hrest⟩

theorem Said.grow {P : String → Prop} (h : Said x.procs id P) (hs : x.Step y l) :
    Said y.procs id P := by
  refine hs.exists_hist (φ := fun call h => ∃ job data, call = .attempt job data ∧
    Sends h data id ∧ P (saidIn data)) ?_ h
  rintro call e h ⟨job, data, hcall, hsends, hP⟩
  exact ⟨job, data, hcall, hsends.suffix (List.suffix_cons e h), hP⟩

theorem Gathered.grow {d : ChatDraft} (h : Gathered x.procs id d) (hs : x.Step y l) :
    Gathered y.procs id d where
  title title ht := (h.title title ht).grow hs
  amount kobo hk := (h.amount kobo hk).grow hs

theorem Conversation.grow {s : ChatSession} (h : Conversation x.procs s) (hs : x.Step y l) :
    Conversation y.procs s where
  fit := h.fit
  gathered := h.gathered.grow hs

theorem Sold.grow {data : ChatInboundJobData} {i : ChatIdentity} {d : TransactionCreate}
    (h : Sold x.procs data i d) (hs : x.Step y l) : Sold y.procs data i d :=
  { h with title := h.title.grow hs, amount := h.amount.grow hs }

theorem conversation_fresh (procs : List (Process (worker env))) (id : Uuid) (t : Int) :
    Conversation procs (freshSession id t) where
  fit := fit_fresh id t
  gathered := ⟨fun _ h => (by cases h), fun _ h => by cases h⟩

/-- **A draft that goes on** from one the chat's messages said, by what a message of the chat says. -/
theorem Continues.gathered {procs : List (Process (worker env))} {d₀ d : ChatDraft}
    (h : Continues said d₀ d) (hd₀ : Gathered procs id d₀)
    (hsaid : ∀ P : String → Prop, P said → Said procs id P) : Gathered procs id d where
  title title ht := (h.title title ht).elim (hd₀.title title) fun hnew => hsaid _ hnew
  amount kobo hk := (h.amount kobo hk).elim (hd₀.amount kobo) fun hnew => hsaid _ hnew

/-- A session that is patched by what a message of its chat says. -/
theorem Conversation.patched {procs : List (Process (worker env))} {s₀ : ChatSession}
    {patch : SessionPatch} {t : Int} (hs₀ : Conversation procs s₀)
    (hsession : Conversation procs session) (hid : s₀.chatIdentityId = session.chatIdentityId)
    (hfits : Fit session → patch.Fits)
    (hdraft : ∀ d, patch.draft = some (some d) → Continues said (readDraft session) d)
    (hsaid : ∀ P : String → Prop, P said → Said procs session.chatIdentityId P) :
    Conversation procs (patch.apply t s₀) where
  fit := hfits hsession.fit t s₀ hs₀.fit
  gathered := by
    show Gathered procs s₀.chatIdentityId (readDraft (patch.apply t s₀))
    unfold readDraft SessionPatch.apply
    cases hpatch : patch.draft with
    | none => exact hs₀.gathered
    | some draft =>
        cases draft with
        | none => exact ⟨fun _ h => (by cases h), fun _ h => by cases h⟩
        | some d => exact hid ▸ (hdraft d hpatch).gathered hsession.gathered hsaid

/-- What a draft that is complete asks for. -/
theorem chat_draft {userId : Uuid} {draft : Meduman.ChatDraft} {text : String}
    {origin : TransactionOrigin} {input : CreateDraftInput}
    (h : (Entrypoint.chat userId draft text origin).draft = some input) :
    ∃ title kobo, draft.title = some title ∧ draft.amountKobo = some kobo ∧
      input = { sellerId := userId, title := title, amount := kobo, origin := some origin
                description := if isSkip text then none else truthy (some (slice text 500)) } := by
  simp only [Entrypoint.draft] at h
  split at h
  · rename_i title kobo htitle hkobo
    exact ⟨title, kobo, (Option.filter_eq_some_iff.mp htitle).1,
      (Option.filter_eq_some_iff.mp hkobo).1, (Option.some.inj h).symm⟩
  · cases h

theorem truthy_described (skip : Bool) (text : Option String) :
    truthy (if skip then none else truthy text) = if skip then none else truthy text := by
  cases skip with
  | true => rfl
  | false => simp [truthy]

/-- **What a complete conversation sells.** -/
theorem Conversation.sold {procs : List (Process (worker env))} {data : ChatInboundJobData}
    {input : CreateDraftInput} {link : String} (hsession : Conversation procs session)
    (hsender : FromSender data c.identity) (hown : session.chatIdentityId = c.identity.id)
    (hdraft : (Entrypoint.chat c.userId (readDraft session).toChatDraft (saidIn data)
      (originOf c.identity.platform)).draft = some input) :
    Sold procs data c.identity (input.create link) := by
  obtain ⟨title, kobo, htitle, hkobo, rfl⟩ := chat_draft hdraft
  have hsaid := hsession.gathered.title title htitle
  have hpriced := hsession.gathered.amount kobo hkobo
  rw [hown] at hsaid hpriced
  refine ⟨hsender, rfl, rfl, hsaid, hpriced, (readDraft session).positive kobo hkobo, ?_, rfl, rfl⟩
  generalize isSkip (saidIn data) = skip
  generalize some (slice (saidIn data) 500) = text
  exact truthy_described skip text

/-! ## Runs -/

/-- What holds of every session and of every attempt. -/
structure Conversing (x : Config (worker env)) : Prop where
  /-- Every session is a conversation, -/
  sessions : ∀ s ∈ x.world.sessions, Conversation x.procs s
  /-- and so is every session an attempt has read. -/
  read : ∀ p ∈ x.procs, ∀ s, Read sessionRead p.hist s → Conversation x.procs s
  /-- An attempt writes to the session of its sender. -/
  written : ∀ p ∈ x.procs, ∀ e ∈ p.hist, ∀ id patch t, e.op = .chat (.chatSessionUpdate id patch t) →
    ∃ job data, p.call = .attempt job data ∧ Sends p.hist data id
  /-- Every sale is one of the sender whose message is attempted. -/
  sales : ∀ p ∈ x.procs, ∀ e ∈ p.hist, ∀ d, e.op = .core (.transactionCreate d) →
    ∃ job data i, p.call = .attempt job data ∧ Read identityRead p.hist i ∧ Sold x.procs data i d

theorem drift_sessions {m : Move} {u w : World} (h : drift m u = some w) : w.sessions = u.sessions := by
  cases m with
  | forget jobId =>
      simp only [drift] at h
      obtain ⟨gateway, -, rfl⟩ := Option.map_eq_some_iff.mp h
      rfl
  | others core accounts otp owner =>
      obtain ⟨chatIdentities, -, h⟩ := Option.bind_eq_some_iff.mp h
      cases h
      rfl

/-- The message of an attempt that is in progress is one of its chat. -/
theorem said_of_known {p : Process (worker env)} (hp : p ∈ y.procs) {job : Nat}
    {data : ChatInboundJobData} (hcall : p.call = .attempt job data) {h : Hist}
    (hhist : h <:+ p.hist) (hk : Known h c session) (hsender : FromSender data c.identity)
    {P : String → Prop} (hP : P (saidIn data)) : Said y.procs session.chatIdentityId P :=
  ⟨p, hp, job, data, hcall, ⟨c.identity, hk.identity.suffix hhist, hsender, hk.own.symm⟩, hP⟩

/-- **One step.** -/
theorem Conversing.step (hx : Reaches Guard.free ⟨World.initial, []⟩ x) (hc : Conversing x)
    (hs : x.Step y l) : Conversing y := by
  have hsessions : ∀ s ∈ y.world.sessions, Conversation y.procs s := by
    intro s hmem
    rcases hs.world_cases with hw | ⟨i, choice, p, op, k, a, -, hp, hk, he, hq⟩ | ⟨m, -, hm⟩
    · exact (hc.sessions s (hw ▸ hmem)).grow hs
    · have hpmem := List.mem_of_getElem? hp
      rcases session_origin he hmem with hmem | ⟨id, t, rfl⟩ | ⟨s₀, hs₀, patch, t, rfl, rfl⟩
      · exact (hc.sessions s hmem).grow hs
      · exact conversation_fresh _ id t
      · rcases attempts_of_reaches hx hpmem hk with hquiet |
          ⟨job, data, c, session, hcall, hknown, hsender, hid, hfits, hdraft⟩
        · exact hquiet.elim
        · have hsession := (hc.read p hpmem session hknown.conversation).grow hs
          exact ((hc.sessions s₀ hs₀).grow hs).patched hsession hid hfits hdraft fun P hP =>
            said_of_known (List.mem_of_getElem? hq) hcall (List.suffix_cons _ _) hknown hsender hP
    · exact (hc.sessions s (drift_sessions hm ▸ hmem)).grow hs
  refine ⟨hsessions, fun q hq s hread => ?_, fun q hq e he id patch t hop => ?_,
    fun q hq e he d hop => ?_⟩
  · obtain ⟨j, hj⟩ := List.getElem?_of_mem hq
    rcases hs.hist_cases hj with ⟨p, hp, -, hhist⟩ | hnil | ⟨p, op, k, choice, a, hp, -, -, he, -, hhist⟩
    · rw [hhist] at hread
      exact (hc.read p (List.mem_of_getElem? hp) s hread).grow hs
    · rw [hnil] at hread
      obtain ⟨e, he, -⟩ := hread
      cases he
    · rw [hhist] at hread
      obtain ⟨e, hmem, hs'⟩ := hread
      rcases List.mem_cons.mp hmem with rfl | hmem
      · rcases sessionRead_mem he hs' with hmem | ⟨id, t, rfl⟩
        · exact hsessions s hmem
        · exact conversation_fresh _ id t
      · exact (hc.read p (List.mem_of_getElem? hp) s ⟨e, hmem, hs'⟩).grow hs
  · obtain ⟨j, hj⟩ := List.getElem?_of_mem hq
    rcases hs.hist_cases hj with ⟨p, hp, hcall, hhist⟩ | hnil |
      ⟨p, op, k, choice, a, hp, hk, -, -, hcall, hhist⟩
    · rw [hcall, hhist]
      exact hc.written p (List.mem_of_getElem? hp) e (hhist ▸ he) id patch t hop
    · rw [hnil] at he
      cases he
    · have hpmem := List.mem_of_getElem? hp
      rw [hcall, hhist]
      rw [hhist] at he
      rcases List.mem_cons.mp he with rfl | he
      · obtain rfl : op = .chat (.chatSessionUpdate id patch t) := hop
        rcases attempts_of_reaches hx hpmem hk with hquiet |
          ⟨job, data, c, session, hcall, hknown, hsender, hid, -⟩
        · exact hquiet.elim
        · exact ⟨job, data, hcall, c.identity, hknown.identity.suffix (List.suffix_cons _ _), hsender,
            hknown.own.symm.trans hid.symm⟩
      · obtain ⟨job, data, hp', hsends⟩ := hc.written p hpmem e he id patch t hop
        exact ⟨job, data, hp', hsends.suffix (List.suffix_cons _ _)⟩
  · obtain ⟨j, hj⟩ := List.getElem?_of_mem hq
    rcases hs.hist_cases hj with ⟨p, hp, hcall, hhist⟩ | hnil |
      ⟨p, op, k, choice, a, hp, hk, -, -, hcall, hhist⟩
    · rw [hcall, hhist]
      obtain ⟨job, data, i, hp', hread, hsold⟩ :=
        hc.sales p (List.mem_of_getElem? hp) e (hhist ▸ he) d hop
      exact ⟨job, data, i, hp', hread, hsold.grow hs⟩
    · rw [hnil] at he
      cases he
    · have hpmem := List.mem_of_getElem? hp
      rw [hcall, hhist]
      rw [hhist] at he
      rcases List.mem_cons.mp he with rfl | he
      · obtain rfl : op = .core (.transactionCreate d) := hop
        rcases attempts_of_reaches hx hpmem hk with hquiet |
          ⟨job, data, c, session, hcall, hknown, hsender, -, input, link, hdraft, rfl⟩
        · exact hquiet.elim
        · have hsession := (hc.read p hpmem session hknown.conversation).grow hs
          exact ⟨job, data, c.identity, hcall, hknown.identity.suffix (List.suffix_cons _ _),
            hsession.sold hsender hknown.own hdraft⟩
      · obtain ⟨job, data, i, hp', hread, hsold⟩ := hc.sales p hpmem e he d hop
        exact ⟨job, data, i, hp', hread.suffix (List.suffix_cons _ _), hsold.grow hs⟩

theorem conversing_run (hx : Reaches Guard.free ⟨World.initial, []⟩ x) : Conversing x := by
  induction hx with
  | refl =>
      exact ⟨fun _ h => (by cases h), fun _ h => (by cases h), fun _ h => (by cases h),
        fun _ h => (by cases h)⟩
  | tail hrun hstep ih =>
      obtain ⟨l, hl⟩ := hstep
      exact ih.step hrun (Config.next_step hl)

/-- **Conversations in every run.** Whatever attempts run side by side, a session holds what its step goes on
from, all of it said in messages of its sender, and a sale is the sender's, of what their messages have named
and priced; so a description completes every sale it is asked for. -/
theorem conversation_run (hx : Reaches Guard.free ⟨World.initial, []⟩ x) :
    Conversing x ∧ ∀ p ∈ x.procs, ∀ s, Read sessionRead p.hist s → s.step = .sellerTxDescription →
      ∀ userId text origin,
        ∃ input, (Entrypoint.chat userId (readDraft s).toChatDraft text origin).draft = some input :=
  ⟨conversing_run hx, fun p hp s hread hstep userId text origin =>
    ((conversing_run hx).read p hp s hread).fit.draft hstep userId text origin⟩

namespace Demo

/-- Telegram, whose deliveries are taken to be signed. -/
def telegram : Env where
  gateway := ⟨[.telegramAdapter], fun _ _ _ => true⟩
  linking := ⟨fun code => code, fun code => code, 8, 900, 5, "chat.example"⟩
  otp := ⟨fun code => code, 6, 300, 5⟩
  chatSessionTtlSeconds := 900

def firstId : Uuid := ⟨"00000000-0000-4000-8010-000000000001", by decide⟩

def secondId : Uuid := ⟨"00000000-0000-4000-8010-000000000002", by decide⟩

def thirdId : Uuid := ⟨"00000000-0000-4000-8010-000000000003", by decide⟩

def fourthId : Uuid := ⟨"00000000-0000-4000-8010-000000000004", by decide⟩

/-- One Telegram text, as it is delivered. -/
def texts (n : Int) (text : String) : IngestInput where
  platform := .telegram
  rawBody := ""
  headers := ""
  body := some { update_id := some n, message := some { chatId := some "5", text := some text } }

/-- The job it becomes. -/
def texted (id text : String) : ChatInboundJobData :=
  ⟨.telegram, id, "5", none, some text, none, []⟩

def byGateway (id : Uuid) : Choice := .gateway (.served id)

def byLinking (id : Uuid) : Choice := .linking (.served { id := id })

def byCore (id : Uuid) : Choice := .core (.served { id := id })

def bySellers : Choice := .sellers (.served "")

def byChat (id : Uuid) : Choice := .chat (.served { id := id })

/-- The call arrives as process `i`, and its operations are served in turn. -/
def serve (i : Nat) (call : Call) (choices : List Choice) : List (Label (worker telegram)) :=
  .arrive call :: choices.map (.perform i)

/-- The known sender, and their session. -/
def known : List Choice := [byLinking firstId, byChat firstId, byChat firstId, byCore firstId]

/-- A sale is announced, named, priced and described. -/
def conversation : List (Label (worker telegram)) :=
  serve 0 (.ingest (texts 1 "/sell")) [byGateway firstId, byGateway firstId] ++
  serve 1 (.ingest (texts 2 "Phone")) [byGateway secondId, byGateway secondId] ++
  serve 2 (.ingest (texts 3 "5")) [byGateway thirdId, byGateway thirdId] ++
  serve 3 (.ingest (texts 4 "skip")) [byGateway fourthId, byGateway fourthId] ++
  serve 4 (.attempt 0 (texted "msg:1" "/sell")) (List.replicate 4 (byLinking firstId) ++
    [byChat firstId, byChat firstId, byCore firstId, byChat firstId, byCore firstId, byChat firstId,
      byChat firstId]) ++
  serve 5 (.attempt 1 (texted "msg:2" "Phone")) (known ++ [byCore firstId, byChat firstId, byChat firstId]) ++
  serve 6 (.attempt 2 (texted "msg:3" "5")) (known ++ [byCore firstId, byChat firstId, byChat firstId]) ++
  serve 7 (.attempt 3 (texted "msg:4" "skip")) (known ++ List.replicate 7 (byCore secondId) ++
    [byChat firstId, bySellers, bySellers, byChat firstId])

end Demo

set_option maxRecDepth 20000 in
/-- A sale from its announcement to its description. -/
theorem conversation_sold : ∃ x : Config (worker Demo.telegram),
    (∃ t ∈ x.world.core.transactions, t.title = "Phone" ∧ t.amount = 500) ∧ Conversing x ∧
      ∀ p ∈ x.procs, ∀ s, Read sessionRead p.hist s → s.step = .sellerTxDescription →
        ∀ userId text origin,
          ∃ input, (Entrypoint.chat userId (readDraft s).toChatDraft text origin).draft = some input := by
  have hrun : ((Config.run Guard.free Demo.conversation
      (⟨World.initial, []⟩ : Config (worker Demo.telegram))).map fun x =>
        decide (x.world.core.transactions.rows.map (fun t => (t.title, t.amount)) =
          [("Phone", 500)])) = some true := by decide
  obtain ⟨x, hx, htest⟩ := exists_of_run hrun
  obtain ⟨⟨t, ht, hsold⟩, -⟩ := Table.of_map_eq_singleton (of_decide_eq_true htest)
  exact ⟨x, ⟨t, ht, Prod.mk.inj hsold⟩, conversation_run hx⟩

end Meduman.Dialog
