import Meduman.Core.Justify

/-!
# Who does what

Which operations a call can perform at all, whatever answers it gets: only a checkout creates a
payment, only a complaint a dispute, only an edit or a void writes an invoice row.

* `Call.Applies` : the transitions a call applies
* `Call.Does` : the writes a call can perform
* **`code_does`** : every call keeps to them
* `apply_traces` : what applying an event leaves in the history of a call
-/

set_option autoImplicit false

namespace Meduman

open Effect

/-! ## Kinds of calls -/

/-- The call is a checkout of this buyer. -/
def Call.ChecksOut : Call → Uuid → Prop
  | .initializeCollection input, buyerId => input.buyerId = buyerId
  | .initializeVirtualAccount _ buyer _, buyerId => buyer = buyerId
  | _, _ => False

/-- The call verifies payments. -/
def Call.Verifies : Call → Prop
  | .verify _ | .reconcilePending | .paystackWebhook .. => True
  | _ => False

/-- The call sends transfers. -/
def Call.Disburses : Call → Prop
  | .executeRelease _ | .processRelease _ | .retryTransfer .. => True
  | _ => False

/-- The call releases a transaction and enqueues its payout. -/
def Call.Enqueues : Call → Prop
  | .resolveDispute _ | .confirm .. | .scanAndRelease => True
  | _ => False

/-- The transitions a call applies. -/
def Call.Applies : Call → ApplyTransitionInput → Prop
  | .drive i, input => input = i
  | .initializeCollection i, input => ∃ id, input = checkout id i.buyerId
  | .initializeVirtualAccount _ buyerId _, input => ∃ id, input = checkout id buyerId
  | .verify _, input | .reconcilePending, input => ∃ id r source, input = protection id r source
  | .paystackWebhook .., input =>
      (∃ id r source, input = protection id r source) ∨ input.event = .payoutSucceeded
  | .markPaid .., input | .retryTransfer .., input => input.event = .payoutSucceeded
  | .raiseDispute i, input => input = i.event
  | .resolveDispute i, input => ∃ dispute otherOpen, input = i.event dispute otherOpen
  | .confirm id buyerId reason, input => input = confirmation id buyerId reason
  | .scanAndRelease, input => ∃ id, input = autoConfirmation id
  | .voidInvoice sellerId _, input => ∃ id invoice, input = Invoices.cancellation sellerId id invoice
  | .sendInvoice sellerId _, input => ∃ id, input = Invoices.publication sellerId id
  | _, _ => False

/-- The writes a call can perform. -/
def Call.Does (c : Call) : Op → Prop
  | .commitTransition d => ∃ input tx context nextState, c.Applies input ∧
      transition tx.status input.event context = .ok nextState ∧ d = input.write tx nextState
  | .transactionCreate d => d.status = .draft ∧
      ((∃ r, c = .create r) ∨ ∃ sellerId id, c = .sendInvoice sellerId id)
  | .transactionUpdateBuyer _ buyerId => c.ChecksOut buyerId
  | .paymentCreate _ | .initializeTransaction _ => ∃ buyerId, c.ChecksOut buyerId
  | .paymentUpdate .. | .paymentBindCharge .. | .verifyTransaction _ => c.Verifies
  | .disputeCreate d => ∃ i, c = .raiseDispute i ∧ d.transactionId = i.transactionId ∧
      d.status = .open
  | .disputeUpdate _ d => ∃ i, c = .resolveDispute i ∧ d.status = i.outcome.status
  | .enqueueRelease _ => c.Enqueues
  | .payoutCreate _ | .initiateTransfer _ => c.Disburses
  | .payoutUpdate _ d => d.status = some .processing → c.Disburses
  | .invoiceCreate _ => ∃ sellerId dto, c = .createInvoice sellerId dto
  | .invoiceUpdate id d => (∃ sellerId dto, c = .editInvoice sellerId id dto ∧ d.status = none) ∨
      ∃ sellerId, c = .voidInvoice sellerId id ∧ d = { status := some .void }
  | .invoiceUpdateManySent id _ _ => ∃ sellerId, c = .sendInvoice sellerId id
  | .invoiceUpdateManyPaid _ statuses => c.Verifies ∧ statuses = [.sent, .viewed, .overdue]
  | .startReleaseJob id | .completeReleaseJob id _ | .failReleaseJob id _ => c = .processRelease id
  | .stallReleaseJob id => c = .recoverStalled id
  | _ => True

variable {env : Env} {c : Call}

/-! ## Transitions and drafts -/

theorem dispatch_does (eventId : Uuid) : (dispatch eventId).Uses c.Does :=
  uses_tryCatch (uses_perform trivial) fun _ => trivial

theorem apply_does {input : ApplyTransitionInput} (hin : c.Applies input) :
    (apply input).Uses c.Does := by
  unfold apply
  refine uses_bind (uses_perform trivial) fun found => ?_
  rcases found with _ | ⟨tx, disputes⟩
  · trivial
  dsimp only
  split
  · trivial
  · rename_i nextState hok
    refine uses_bind (uses_perform ⟨input, tx, _, nextState, hin, hok, rfl⟩) ?_
    rintro ⟨updatedTx, _ | eventId⟩
    · trivial
    · exact uses_bind (dispatch_does eventId) fun _ => trivial

/-- What a transition performs. -/
theorem apply_uses {A : Op → Prop} {input : ApplyTransitionInput}
    (load : A (.transactionFindWithDisputes input.transactionId freezingDisputeStatuses))
    (commit : ∀ d, A (.commitTransition d)) (dispatch : ∀ id, A (.enqueueWebhookDelivery id)) :
    (apply input).Uses A := by
  unfold apply
  refine uses_bind (uses_perform load) fun found => ?_
  rcases found with _ | ⟨tx, disputes⟩
  · trivial
  dsimp only
  split
  · trivial
  · refine uses_bind (uses_perform (commit _)) ?_
    rintro ⟨updatedTx, _ | eventId⟩
    · trivial
    · exact uses_bind (uses_tryCatch (uses_perform (dispatch eventId)) fun _ => trivial)
        fun _ => trivial

theorem grantRoleFlag_uses {A : Op → Prop} {userId : Uuid} {flag : UserRole}
    (find : A (.userFindUnique userId)) (update : ∀ flags, A (.userUpdateRoleFlags userId flags)) :
    (grantRoleFlag userId flag).Uses A := by
  refine uses_bind (uses_perform find) fun user => ?_
  cases user with
  | none => trivial
  | some user =>
      dsimp only
      split
      · trivial
      · exact uses_perform (update _)

theorem createDraft_does (hc : (∃ r, c = .create r) ∨ ∃ sellerId id, c = .sendInvoice sellerId id)
    (input : CreateDraftInput) : (createDraft input).Uses c.Does := by
  refine uses_bind (uses_perform trivial) fun uuid => ?_
  exact uses_bind (uses_perform ⟨rfl, hc⟩) fun tx =>
    uses_bind (grantRoleFlag_uses trivial fun _ => trivial) fun _ => trivial

/-! ## Payments -/

theorem linkBuyer_does {buyerId : Uuid} (hc : c.ChecksOut buyerId) (tx : Transaction) :
    (linkBuyer tx buyerId).Uses c.Does := by
  unfold linkBuyer
  split
  · exact uses_perform hc
  · trivial

theorem initializeCollection_does (input : InitializeCollectionInput) :
    (initializeCollection env input).Uses (Call.initializeCollection input).Does := by
  unfold initializeCollection
  refine uses_bind ?_ fun tx => ?_
  · unfold resolveTransaction
    split
    · exact uses_perform trivial
    · exact uses_perform trivial
    · trivial
  · cases tx with
    | none => trivial
    | some tx =>
        refine uses_bind (apply_does ⟨tx.id, rfl⟩) fun _ => ?_
        refine uses_bind (linkBuyer_does (c := .initializeCollection input) rfl tx) fun _ => ?_
        refine uses_bind (uses_perform trivial) fun uuid => ?_
        refine uses_bind (uses_perform ⟨input.buyerId, rfl⟩) fun payment => ?_
        exact uses_bind (uses_perform ⟨input.buyerId, rfl⟩) fun _ => trivial

theorem initializeVirtualAccount_does (transactionId buyerId : Uuid) (email : String) :
    (initializeVirtualAccount transactionId buyerId email).Uses
      (Call.initializeVirtualAccount transactionId buyerId email).Does := by
  unfold initializeVirtualAccount
  refine uses_bind (uses_perform trivial) fun tx => ?_
  cases tx with
  | none => trivial
  | some tx =>
      refine uses_bind (uses_perform trivial) fun existing => ?_
      cases existing with
      | some existing => trivial
      | none =>
          refine uses_bind (apply_does ⟨tx.id, rfl⟩) fun _ => ?_
          have hbuyer : (Call.initializeVirtualAccount transactionId buyerId email).ChecksOut buyerId :=
            rfl
          refine uses_bind (linkBuyer_does hbuyer tx) fun _ => ?_
          refine uses_bind (uses_perform trivial) fun uuid => ?_
          refine uses_bind (uses_perform trivial) fun customerCode => ?_
          refine uses_bind (uses_perform trivial) fun account => ?_
          exact uses_bind (uses_perform ⟨buyerId, rfl⟩) fun _ => trivial

theorem attachDedicatedAccount_does (hc : c.Verifies) (customerCode accountNumber bankName : String)
    (dedicatedAccountId : Option String) :
    (attachDedicatedAccount customerCode accountNumber bankName dedicatedAccountId).Uses
      c.Does := by
  refine uses_bind (uses_perform trivial) fun payment => ?_
  cases payment with
  | none => trivial
  | some payment =>
      refine uses_bind (uses_perform hc) fun updated => ?_
      refine uses_bind (uses_perform trivial) fun tx => ?_
      cases tx with
      | none => trivial
      | some tx =>
          dsimp only
          cases tx.buyerId with
          | none => trivial
          | some buyerId => exact uses_bind (uses_perform trivial) fun _ => trivial

theorem markPaidByTransaction_does (hc : c.Verifies) (transactionId : Uuid) :
    (markPaidByTransaction transactionId).Uses c.Does := by
  refine uses_bind (uses_perform ⟨hc, rfl⟩) fun count => ?_
  split
  · refine uses_bind (uses_perform trivial) fun invoice => ?_
    cases invoice with
    | none => trivial
    | some invoice => exact uses_perform trivial
  · trivial

theorem notifyProtected_does (transactionId : Uuid) :
    (notifyProtected transactionId).Uses c.Does := by
  refine uses_bind (uses_perform trivial) fun tx => ?_
  cases tx with
  | none => trivial
  | some tx =>
      dsimp only
      cases tx.buyerId with
      | none => exact uses_perform trivial
      | some buyerId => exact uses_bind (uses_perform trivial) fun _ => uses_perform trivial

/-- The call verifies payments, and may protect what they are for. -/
structure Call.Protects (c : Call) : Prop where
  verifies : c.Verifies
  applies : ∀ id r source, c.Applies (protection id r source)

theorem verifyAndProtectPayment_does (hc : c.Protects) (payment : Payment) (reference : String)
    (source : TrustedPaymentSource) :
    (verifyAndProtectPayment payment reference source).Uses c.Does := by
  unfold verifyAndProtectPayment
  split
  · exact uses_bind (markPaidByTransaction_does hc.verifies _) fun _ => trivial
  · refine uses_bind (uses_perform hc.verifies) fun verified => ?_
    split
    · exact uses_perform hc.verifies
    · split
      · trivial
      · refine uses_bind (uses_perform hc.verifies) fun updated => ?_
        refine uses_bind (apply_does (hc.applies _ _ _)) fun _ => ?_
        refine uses_bind (markPaidByTransaction_does hc.verifies _) fun _ => ?_
        exact uses_bind (notifyProtected_does _) fun _ => trivial

theorem verifyAndProtect_does (hc : c.Protects) (reference : String)
    (source : TrustedPaymentSource) : (verifyAndProtect reference source).Uses c.Does := by
  refine uses_bind (uses_perform trivial) fun payment => ?_
  cases payment with
  | none => trivial
  | some payment => exact verifyAndProtectPayment_does hc payment reference source

theorem reconcilePayment_does (hc : c.Protects) (paymentId : Uuid) :
    (reconcilePayment paymentId).Uses c.Does := by
  refine uses_bind (uses_perform trivial) fun payment => ?_
  cases payment with
  | none => trivial
  | some payment =>
      dsimp only
      split
      · trivial
      · exact verifyAndProtectPayment_does hc payment _ .serverVerify

theorem reconcileEach_does (hc : c.Protects) (stranded : List Payment) (n : Nat) :
    (reconcileEach stranded n).Uses c.Does := by
  induction stranded generalizing n with
  | nil => trivial
  | cons payment rest ih =>
      refine uses_bind (uses_tryCatch ?_ fun _ => trivial) fun reached => ih _
      exact uses_bind (reconcilePayment_does hc payment.id) fun _ => trivial

theorem reconcilePending_does (hc : c.Protects) : (reconcilePending env).Uses c.Does := by
  refine uses_bind (uses_perform trivial) fun now => ?_
  refine uses_bind (uses_perform trivial) fun stranded => ?_
  exact uses_bind (reconcileEach_does hc stranded 0) fun _ => trivial

theorem handleChargeSuccess_does (hc : c.Protects) (reference : String)
    (customerCode : Option String) (source : TrustedPaymentSource) :
    (handleChargeSuccess reference customerCode source).Uses c.Does := by
  refine uses_bind (uses_perform trivial) fun hosted => ?_
  cases hosted with
  | some hosted =>
      exact uses_bind (verifyAndProtectPayment_does hc hosted reference source) fun _ => trivial
  | none =>
      dsimp only
      split
      · trivial
      · refine uses_bind ?_ fun payment => ?_
        · refine uses_bind (uses_perform trivial) fun bound => ?_
          cases bound with
          | some alreadyBound => trivial
          | none =>
              refine uses_bind (uses_perform trivial) fun payment => ?_
              cases payment with
              | none => trivial
              | some payment =>
                  refine uses_bind (uses_perform hc.verifies) fun count => ?_
                  split
                  · exact uses_perform trivial
                  · exact uses_perform trivial
        · cases payment with
          | none => trivial
          | some payment =>
              exact uses_bind (verifyAndProtectPayment_does hc payment reference source)
                fun _ => trivial

/-! ## Payouts -/

theorem recordTransferSent_does (hc : c.Disburses) (payout : Payout) (code reference : String) :
    (recordTransferSent payout code reference).Uses c.Does := by
  refine uses_bind (uses_perform fun _ => hc) fun updated => ?_
  exact uses_bind (uses_perform trivial) fun _ => trivial

theorem verifyTransfer_does (reference : String) : (verifyTransfer reference).Uses c.Does :=
  uses_tryCatch (uses_bind (uses_perform trivial) fun _ => trivial) fun _ => trivial

theorem sendTransfer_does (hc : c.Disburses) (payout : Payout) (reference : Option String) :
    (sendTransfer payout reference).Uses c.Does := by
  unfold sendTransfer
  split
  · trivial
  · refine uses_bind (uses_perform trivial) fun seller => ?_
    split
    · trivial
    · refine uses_tryCatch ?_ fun err => ?_
      · exact uses_bind (uses_perform hc) fun _ => recordTransferSent_does hc payout _ _
      · refine uses_bind (verifyTransfer_does _) fun existing => ?_
        cases existing with
        | some existing => exact recordTransferSent_does hc payout _ _
        | none =>
            refine uses_bind (uses_perform fun _ => hc) fun _ => ?_
            exact uses_bind (uses_perform trivial) fun _ => trivial

theorem executeRelease_does (hc : c.Disburses) (transactionId : Uuid) :
    (executeRelease transactionId).Uses c.Does := by
  refine uses_bind (uses_perform trivial) fun tx => ?_
  cases tx with
  | none => trivial
  | some tx =>
      dsimp only
      split
      · trivial
      · refine uses_bind (uses_perform trivial) fun openDisputes => ?_
        split
        · trivial
        · refine uses_bind (uses_tryCatch (uses_perform hc) fun err => ?_) fun payout =>
            sendTransfer_does hc payout none
          split
          · refine uses_bind (uses_perform trivial) fun existing => ?_
            cases existing <;> trivial
          · trivial

theorem markPaid_does (hc : ∀ input : ApplyTransitionInput, input.event = .payoutSucceeded →
    c.Applies input) (key code : String) : (markPaid key code).Uses c.Does := by
  refine uses_bind (uses_perform trivial) fun payout => ?_
  cases payout with
  | none => trivial
  | some payout =>
      dsimp only
      split
      · trivial
      · refine uses_bind (uses_perform fun hst => by cases hst) fun updated => ?_
        exact uses_bind (apply_does (hc _ rfl)) fun _ => trivial

theorem markFailed_does (key : String) (status : FailedStatus) (reason : String) :
    (markFailed key status reason).Uses c.Does := by
  refine uses_bind (uses_perform trivial) fun payout => ?_
  cases payout with
  | none => trivial
  | some payout =>
      dsimp only
      split
      · trivial
      · refine uses_bind (uses_perform fun hst => by cases status <;> cases hst) fun updated => ?_
        exact uses_bind (uses_perform trivial) fun _ => trivial

theorem retryTransfer_does (key adminId : String) :
    (retryTransfer key adminId).Uses (Call.retryTransfer key adminId).Does := by
  have hdisburses : (Call.retryTransfer key adminId).Disburses := trivial
  have hpaid : ∀ input : ApplyTransitionInput, input.event = .payoutSucceeded →
      (Call.retryTransfer key adminId).Applies input := fun _ h => h
  refine uses_bind (uses_perform trivial) fun payout => ?_
  cases payout with
  | none => trivial
  | some payout =>
      dsimp only
      split
      · trivial
      · split
        · trivial
        · refine uses_bind (uses_perform trivial) fun openDisputes => ?_
          split
          · trivial
          · refine uses_bind (verifyTransfer_does _) fun prior => ?_
            split
            · exact uses_bind (uses_perform trivial) fun _ => markPaid_does hpaid _ _
            · refine uses_bind (uses_perform trivial) fun _ => ?_
              refine uses_bind (uses_perform fun _ => hdisburses) fun reset => ?_
              exact sendTransfer_does hdisburses reset _

/-! ## Webhooks -/

theorem handlePaystackEvent_does (rawBody signature : String) :
    (handlePaystackEvent env rawBody signature).Uses (Call.paystackWebhook rawBody signature).Does := by
  have hprot : (Call.paystackWebhook rawBody signature).Protects :=
    ⟨trivial, fun id r source => .inl ⟨id, r, source, rfl⟩⟩
  have hpaid : ∀ input : ApplyTransitionInput, input.event = .payoutSucceeded →
      (Call.paystackWebhook rawBody signature).Applies input := fun _ h => .inr h
  have hroute : ∀ payload, (route payload).Uses (Call.paystackWebhook rawBody signature).Does := by
    intro payload
    unfold route
    dsimp only
    split
    · split
      · exact handleChargeSuccess_does hprot _ _ _
      · trivial
    · split
      · split
        · split
          · exact uses_bind (attachDedicatedAccount_does hprot.verifies _ _ _ _) fun _ => trivial
          · trivial
        · trivial
      · split
        · split
          · exact uses_bind (markPaid_does hpaid _ _) fun _ => trivial
          · trivial
        · split
          · split
            · trivial
            · exact uses_bind (markFailed_does _ _ _) fun _ => trivial
          · trivial
  unfold handlePaystackEvent
  split
  · trivial
  · split
    · trivial
    · refine uses_bind ?_ fun stale => ?_
      · unfold isStale
        split
        · trivial
        · exact uses_bind (uses_perform trivial) fun _ => trivial
      · split
        · trivial
        · refine uses_bind (uses_tryCatch (uses_bind (uses_perform trivial) fun _ => trivial)
            fun err => ?_) fun recorded => ?_
          · split <;> trivial
          · cases recorded with
            | none => trivial
            | some webhookEventId =>
                refine uses_tryCatch (uses_bind (hroute _) fun handled => ?_) fun err => ?_
                · exact uses_bind (uses_perform trivial) fun _ => trivial
                · exact uses_bind (uses_perform trivial) fun _ => trivial

/-! ## Releases -/

theorem raise_does (input : RaiseDisputeInput) : (raise input).Uses (Call.raiseDispute input).Does :=
  uses_bind (apply_does rfl) fun _ => uses_perform ⟨input, rfl, rfl, rfl⟩

theorem resolve_does (input : ResolveDisputeInput) :
    (resolve input).Uses (Call.resolveDispute input).Does := by
  refine uses_bind (uses_perform trivial) fun dispute => ?_
  cases dispute with
  | none => trivial
  | some dispute =>
      dsimp only
      split
      · trivial
      · refine uses_bind (uses_perform trivial) fun otherOpen => ?_
        refine uses_bind (apply_does ⟨dispute, otherOpen, rfl⟩) fun _ => ?_
        refine uses_bind ?_ fun _ => uses_perform ⟨input, rfl, rfl⟩
        unfold enqueueResolved
        split
        · exact uses_perform trivial
        · trivial

theorem confirm_does (id buyerId : Uuid) (reason : Option String) :
    (confirm id buyerId reason).Uses (Call.confirm id buyerId reason).Does := by
  refine uses_bind (uses_bind (uses_perform trivial) fun tx => ?_) fun tx => ?_
  · cases tx <;> trivial
  · split
    · trivial
    · refine uses_bind (apply_does rfl) fun updated => ?_
      exact uses_bind (uses_perform trivial) fun _ => trivial

theorem scanEach_does (windowMs now : Int) (candidates : List (Transaction × Option Int))
    (released : Nat) : (scanEach windowMs now candidates released).Uses Call.scanAndRelease.Does := by
  induction candidates generalizing released with
  | nil => trivial
  | cons candidate rest ih =>
      obtain ⟨tx, _ | enteredAt⟩ := candidate
      · exact ih released
      · unfold scanEach
        split
        · exact ih released
        · refine uses_bind (uses_tryCatch ?_ fun _ => trivial) fun one => ih _
          refine uses_bind (apply_does ⟨tx.id, rfl⟩) fun _ => ?_
          exact uses_bind (uses_perform trivial) fun _ => trivial

theorem processRelease_does (id : Uuid) :
    (processRelease id).Uses (Call.processRelease id).Does := by
  have hdisburses : (Call.processRelease id).Disburses := trivial
  refine uses_bind (uses_perform rfl) fun start => ?_
  refine uses_bind (uses_tryCatch ?_ fun _ => trivial) fun executed => ?_
  · exact uses_bind (executeRelease_does hdisburses id) fun _ => trivial
  · split
    · exact uses_perform rfl
    · exact uses_perform rfl

/-! ## Invoices -/

theorem loadOwned_does (sellerId id : Uuid) : (Invoices.loadOwned sellerId id).Uses c.Does := by
  refine uses_bind (uses_bind (uses_perform trivial) fun invoice => ?_) fun invoice => ?_
  · cases invoice <;> trivial
  · split <;> trivial

theorem edit_does (sellerId id : Uuid) (dto : UpdateInvoiceDto) :
    (Invoices.edit sellerId id dto).Uses (Call.editInvoice sellerId id dto).Does := by
  refine uses_bind (loadOwned_does sellerId id) fun invoice => ?_
  split
  · trivial
  · split
    · refine uses_bind ?_ fun lines => uses_perform (.inl ⟨sellerId, dto, rfl, rfl⟩)
      unfold Invoices.effectiveLines
      split
      · trivial
      · exact uses_bind (uses_perform trivial) fun _ => trivial
    · exact uses_perform (.inl ⟨sellerId, dto, rfl, rfl⟩)

theorem getPublicView_does (publicViewId : String) :
    (Invoices.getPublicView publicViewId).Uses c.Does := by
  refine uses_bind (uses_perform trivial) fun invoice => ?_
  cases invoice with
  | none => trivial
  | some invoice =>
      dsimp only
      split
      · trivial
      · split
        · exact uses_bind (uses_perform trivial) fun _ => trivial
        · trivial

theorem void_does (sellerId id : Uuid) :
    (Invoices.void sellerId id).Uses (Call.voidInvoice sellerId id).Does := by
  refine uses_bind (loadOwned_does sellerId id) fun invoice => ?_
  split
  · trivial
  · refine uses_bind ?_ fun _ => ?_
    · unfold Invoices.cancelTransaction
      split
      · trivial
      · exact uses_bind (apply_does ⟨_, _, rfl⟩) fun _ => trivial
    · refine uses_bind (uses_perform (.inr ⟨sellerId, rfl, rfl⟩)) fun updated => ?_
      exact uses_bind (uses_perform trivial) fun _ => trivial

theorem send_does (sellerId id : Uuid) :
    (Invoices.send sellerId id).Uses (Call.sendInvoice sellerId id).Does := by
  have hget : (Invoices.getById id).Uses (Call.sendInvoice sellerId id).Does :=
    uses_bind (uses_perform trivial) fun invoice => by cases invoice <;> trivial
  refine uses_bind (loadOwned_does sellerId id) fun invoice => ?_
  split
  · trivial
  · split
    · trivial
    · refine uses_bind (createDraft_does (.inr ⟨sellerId, id, rfl⟩) _) fun tx => ?_
      refine uses_bind (apply_does ⟨tx.id, rfl⟩) fun _ => ?_
      refine uses_bind (uses_bind (uses_perform trivial) fun _ => trivial) fun number => ?_
      refine uses_bind (uses_perform ⟨sellerId, rfl⟩) fun count => ?_
      split
      · exact hget
      · refine uses_bind (uses_perform trivial) fun _ => ?_
        exact uses_bind (uses_perform trivial) fun _ => hget

/-! ## Every call -/

theorem uses_map {α β : Type} {A : Op → Prop} {f : α → β} {p : Program α} (hp : p.Uses A) :
    (f <$> p).Uses A := by
  rw [Prog.map_eq]
  exact uses_bind hp fun _ => trivial

/-- **Every call keeps to its writes.** -/
theorem code_does (env : Env) (c : Call) : (code env c).Uses c.Does := by
  cases c with
  | create request =>
      rw [code]
      split
      · trivial
      · exact uses_map (createDraft_does (.inl ⟨request, rfl⟩) _)
  | drive input => exact uses_map (apply_does rfl)
  | initializeCollection input => exact uses_map (initializeCollection_does input)
  | initializeVirtualAccount t b e => exact uses_map (initializeVirtualAccount_does t b e)
  | verify reference =>
      have hprot : (Call.verify reference).Protects := ⟨trivial, fun id r source => ⟨id, r, source, rfl⟩⟩
      exact uses_map (verifyAndProtect_does hprot _ _)
  | reconcilePending =>
      have hprot : Call.reconcilePending.Protects := ⟨trivial, fun id r source => ⟨id, r, source, rfl⟩⟩
      exact uses_map (reconcilePending_does hprot)
  | paystackWebhook rawBody signature => exact uses_map (handlePaystackEvent_does _ _)
  | executeRelease id =>
      have hdisburses : (Call.executeRelease id).Disburses := trivial
      exact uses_map (executeRelease_does hdisburses id)
  | retryTransfer key adminId => exact uses_map (retryTransfer_does key adminId)
  | markPaid key code =>
      have hpaid : ∀ input : ApplyTransitionInput, input.event = .payoutSucceeded →
          (Call.markPaid key code).Applies input := fun _ h => h
      exact uses_map (markPaid_does hpaid key code)
  | markFailed key status reason => exact uses_map (markFailed_does key status reason)
  | raiseDispute input => exact uses_map (raise_does input)
  | resolveDispute input => exact uses_map (resolve_does input)
  | confirm id buyerId reason => exact uses_map (confirm_does id buyerId reason)
  | scanAndRelease =>
      refine uses_map (uses_bind (uses_perform trivial) fun now => ?_)
      exact uses_bind (uses_perform trivial) fun candidates => scanEach_does _ _ _ _
  | processRelease id => exact uses_map (processRelease_does id)
  | recoverStalled id => exact uses_map (uses_perform rfl)
  | createInvoice sellerId dto =>
      refine uses_map (uses_bind (uses_perform trivial) fun uuid => ?_)
      exact uses_perform ⟨sellerId, dto, rfl⟩
  | editInvoice sellerId id dto => exact uses_map (edit_does sellerId id dto)
  | viewInvoice publicViewId => exact uses_map (getPublicView_does publicViewId)
  | voidInvoice sellerId id => exact uses_map (void_does sellerId id)
  | sendInvoice sellerId id => exact uses_map (send_does sellerId id)
  | scanOverdue =>
      exact uses_map (uses_bind (uses_perform trivial) fun now => uses_perform trivial)

/-! ## The trace of a transition -/

/-- The call committed a transition of this transaction to this status. -/
def Committed (h : Hist) (id : Uuid) (s : TransactionStatus) : Prop :=
  ∃ d a, (⟨.commitTransition d, .ok a⟩ : Event Op.Ans Err) ∈ h ∧ d.transactionId = id ∧ d.newState = s

theorem Committed.mono {h h' : Hist} {id : Uuid} {s : TransactionStatus} (hc : Committed h id s)
    (hsub : h ⊆ h') : Committed h' id s := by
  obtain ⟨d, a, hmem, hd⟩ := hc
  exact ⟨d, a, hsub hmem, hd⟩

theorem committed_cons {h : Hist} {e : Event Op.Ans Err} {id : Uuid} {s : TransactionStatus}
    (hc : Committed (e :: h) id s) :
    (∃ d a, e = ⟨.commitTransition d, .ok a⟩ ∧ d.transactionId = id ∧ d.newState = s) ∨
      Committed h id s := by
  obtain ⟨d, a, hmem, hd⟩ := hc
  rcases List.mem_cons.mp hmem with heq | hmem
  · exact .inl ⟨d, a, heq.symm, hd⟩
  · exact .inr ⟨d, a, hmem, hd⟩

@[simp] theorem committed_nil (id : Uuid) (s : TransactionStatus) : ¬ Committed [] id s := by
  rintro ⟨d, a, hmem, -⟩
  cases hmem

/-- A commit, answered. -/
def Event.commits : Event Op.Ans Err → Bool
  | ⟨.commitTransition _, .ok _⟩ => true
  | _ => false

/-- What commits nothing leaves what was committed as it was. -/
theorem committed_append {l h : Hist} {id : Uuid} {s : TransactionStatus}
    (hl : ∀ e ∈ l, Event.commits e = false) (hc : Committed (l ++ h) id s) : Committed h id s := by
  obtain ⟨d, a, hmem, hd⟩ := hc
  rcases List.mem_append.mp hmem with hmem | hmem
  · cases hl _ hmem
  · exact ⟨d, a, hmem, hd⟩

/-- What a refused transition did: it loaded, and a commit may have erred. -/
def Event.refusal : Event Op.Ans Err → Prop
  | ⟨.transactionFindWithDisputes .., _⟩ => True
  | ⟨.commitTransition _, .error _⟩ => True
  | _ => False

def Event.dispatches : Event Op.Ans Err → Prop
  | ⟨.enqueueWebhookDelivery _, _⟩ => True
  | _ => False

theorem Event.commits_of_dispatches {e : Event Op.Ans Err} (he : Event.dispatches e) :
    Event.commits e = false := by
  unfold Event.dispatches at he
  split at he <;> first | rfl | exact he.elim

/-- The load of a transition. -/
abbrev ApplyTransitionInput.load (input : ApplyTransitionInput) (tx : Transaction)
    (disputes : List Dispute) : Event Op.Ans Err :=
  ⟨.transactionFindWithDisputes input.transactionId freezingDisputeStatuses, .ok (some (tx, disputes))⟩

/-- **The trace of a transition.** Either it is refused, or it commits after its load, and then at
most dispatches. -/
theorem apply_traces {input : ApplyTransitionInput} {P : Event Op.Ans Err → Prop}
    {J : Hist → Op → Prop} {Q : Except Err Transaction → Hist → Prop} {h : Hist}
    (load : J h (.transactionFindWithDisputes input.transactionId freezingDisputeStatuses))
    (commit : ∀ tx disputes nextState,
      transition tx.status input.event (input.context tx disputes) = .ok nextState →
      J (input.load tx disputes :: h) (.commitTransition (input.write tx nextState)))
    (dispatch : ∀ h eventId, J h (.enqueueWebhookDelivery eventId))
    (refused : ∀ e l, (∀ e ∈ l, Event.refusal e) → Q (.error e) (l ++ h))
    (committed : ∀ tx disputes nextState a l, (∀ e ∈ l, Event.dispatches e) →
      transition tx.status input.event (input.context tx disputes) = .ok nextState →
      P ⟨.commitTransition (input.write tx nextState), .ok a⟩ →
      Q (.ok a.1) (l ++ ⟨.commitTransition (input.write tx nextState), .ok a⟩ ::
        input.load tx disputes :: h)) :
    (apply input).Along P J Q h := by
  unfold apply
  rw [along_perform_bind]
  refine ⟨load, fun e _ => refused e [_] ?_, ?_⟩
  · rintro e he
    rw [List.mem_singleton.mp he]
    trivial
  rintro (_ | ⟨tx, disputes⟩) -
  · refine refused _ [_] ?_
    rintro e he
    rw [List.mem_singleton.mp he]
    trivial
  dsimp only
  split
  · refine refused _ [_] ?_
    rintro e he
    rw [List.mem_singleton.mp he]
    trivial
  · rename_i nextState hok
    rw [along_perform_bind]
    refine ⟨commit tx disputes nextState hok, fun e _ => refused e [_, _] ?_, ?_⟩
    · rintro e he
      rcases List.mem_cons.mp he with rfl | he
      · trivial
      · rw [List.mem_singleton.mp he]
        trivial
    · rintro ⟨updatedTx, _ | eventId⟩ hpossible
      · exact committed tx disputes nextState _ [] (fun _ he => absurd he List.not_mem_nil) hok
          hpossible
      · refine (along_bind _ _).mpr ((along_tryCatch _ _).mpr
          ((along_perform _ _).mpr ⟨dispatch _ _, fun e _ => ?_, fun a _ => ?_⟩))
        · refine committed tx disputes nextState (updatedTx, some eventId) [_] ?_ hok hpossible
          rintro e he
          rw [List.mem_singleton.mp he]
          trivial
        · refine committed tx disputes nextState (updatedTx, some eventId) [_] ?_ hok hpossible
          rintro e he
          rw [List.mem_singleton.mp he]
          trivial

end Meduman
