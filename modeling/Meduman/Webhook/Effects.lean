import Meduman.Core.Does
import Meduman.Disburse.Report
import Meduman.Webhook.Received

/-!
# What an event carries out

An event asks for one thing, told by its type and its fields. What a delivery has carried out of it is
read off the history of the delivery: the writes the event asks for, or that they were found made.

* `Request`, `PaystackWebhookPayload.asks` : what an event asks for
* `Request.CarriedOut`, `Effected` : the delivery carried it out
* `Request.Unmatched`, `Unmatched` : it found no payment to carry it out on
* `route_eq` : `route` handles what is asked for
* `handle_carries` : one request
* **`handlePaystackEvent_carries`** : a whole delivery
-/

set_option autoImplicit false

namespace Meduman

open Effect

/-! ## Requests -/

/-- What an event asks for. -/
inductive Request
  | charge (reference : String) (customerCode : Option String)
  | assign (customerCode accountNumber bankName : String) (dedicatedAccountId : Option String)
  | paid (reference transferCode : String)
  | failed (reference : String) (status : FailedStatus) (reason : String)

/-- What the event asks for, told by its type and the fields of its type. -/
def PaystackWebhookPayload.asks (payload : PaystackWebhookPayload) : Option Request :=
  let data := payload.dataOrEmpty
  if payload.event = "charge.success" then
    (truthy data.reference).map fun reference => .charge reference data.customerCode
  else if payload.event = "dedicatedaccount.assign.success" then do
    let customerCode ← truthy data.customerCode
    let acct ← data.dedicatedAccount
    let accountNumber ← truthy acct.accountNumber
    some (.assign customerCode accountNumber (acct.bankName.getD "bank") (acct.id.map EventId.text))
  else if payload.event = "transfer.success" then do
    let reference ← truthy data.reference
    let transferCode ← truthy data.transferCode
    some (.paid reference transferCode)
  else if payload.event = "transfer.failed" then
    (truthy data.reference).map fun reference => .failed reference .failed (failureReason payload)
  else if payload.event = "transfer.reversed" then
    (truthy data.reference).map fun reference => .failed reference .reversed (failureReason payload)
  else none

/-- The service a request is dispatched to. -/
def Request.handle : Request → Program Bool
  | charge reference customerCode => handleChargeSuccess reference customerCode .webhook
  | assign customerCode accountNumber bankName dedicatedAccountId => do
      let _ ← attachDedicatedAccount customerCode accountNumber bankName dedicatedAccountId
      pure true
  | paid reference transferCode => do
      let _ ← markPaid reference transferCode
      pure true
  | failed reference status reason => do
      let _ ← markFailed reference status reason
      pure true

variable {env : Env} {h h' : Hist} {payload : PaystackWebhookPayload} {request : Request} {α : Type}

/-- **An event is handled as what it asks for.** -/
theorem route_eq (payload : PaystackWebhookPayload) :
    route payload = payload.asks.elim (pure false) Request.handle := by
  unfold route PaystackWebhookPayload.asks
  dsimp only
  by_cases hcharge : payload.event = "charge.success"
  · simp only [hcharge, if_true]
    cases truthy payload.dataOrEmpty.reference <;> rfl
  by_cases hassign : payload.event = "dedicatedaccount.assign.success"
  · simp only [hassign, String.reduceEq, if_true, if_false]
    cases truthy payload.dataOrEmpty.customerCode with
    | none => rfl
    | some customerCode =>
        cases payload.dataOrEmpty.dedicatedAccount with
        | none => rfl
        | some acct =>
            simp only [Option.bind_eq_bind, Option.bind_some]
            cases truthy acct.accountNumber <;> rfl
  by_cases hsuccess : payload.event = "transfer.success"
  · simp only [hsuccess, String.reduceEq, if_true, if_false]
    cases truthy payload.dataOrEmpty.reference <;>
      cases truthy payload.dataOrEmpty.transferCode <;> rfl
  by_cases hfailed : payload.event = "transfer.failed"
  · simp only [hfailed, String.reduceEq, if_true, if_false, true_or]
    cases truthy payload.dataOrEmpty.reference <;> rfl
  by_cases hreversed : payload.event = "transfer.reversed"
  · simp only [hreversed, String.reduceEq, if_true, if_false, or_true]
    cases truthy payload.dataOrEmpty.reference <;> rfl
  · simp only [hcharge, hassign, hsuccess, hfailed, hreversed, or_self, if_false]
    rfl

/-! ## What they ask for -/

/-- The payment was found collected, or Paystack was asked about the charge: it had not succeeded, which
was written to the payment, or it had, exactly, and payment and transaction were protected. Where the
payment is collected, the invoice was told. -/
def PaymentCarried (h : Hist) (payment : Payment) (reference : String) : Prop :=
  (payment.status = .success ∧
    ∃ n, Saw h (.invoiceUpdateManyPaid payment.transactionId [.sent, .viewed, .overdue]) n) ∨
  ∃ verified, Saw h (.verifyTransaction reference) verified ∧
    ((verified.status ≠ "success" ∧ ∃ updated, Saw h (.paymentUpdate payment.id
        { status := some (if verified.status = "abandoned" then .abandoned else .failed)
          rawPayload := some verified }) updated) ∨
      (verified.status = "success" ∧ verified.amount = payment.amount ∧
        (∃ updated, Saw h (.paymentUpdate payment.id
          { status := some .success, rawPayload := some verified }) updated) ∧
        Committed h payment.transactionId .paymentProtected ∧
        ∃ n, Saw h (.invoiceUpdateManyPaid payment.transactionId [.sent, .viewed, .overdue]) n))

/-- **The delivery carried out the request.** -/
def Request.CarriedOut (h : Hist) : Request → Prop
  | charge reference _ => ∃ key payment, Saw h (.paymentFindUnique key) (some payment) ∧
      PaymentCarried h payment reference
  | assign customerCode accountNumber bankName dedicatedAccountId => ∃ payment updated,
      Saw h (.paymentFindFirst
        { status := some .pending, providerCustomerCode := .equals customerCode }) (some payment) ∧
      Saw h (.paymentUpdate payment.id
        { virtualAccountNumber := some accountNumber, virtualAccountBank := some bankName
          providerDedicatedAccountId := truthy dedicatedAccountId }) updated
  | paid reference transferCode => ∃ payout, Saw h (.payoutFindUnique reference) (some payout) ∧
      (payout.status = .success ∨
        (∃ updated, Saw h (.payoutUpdate reference
          { status := some .success, providerTransferCode := some (some transferCode) }) updated) ∧
        Committed h payout.transactionId .completed)
  | failed reference status reason => ∃ payout, Saw h (.payoutFindUnique reference) (some payout) ∧
      (payout.status = .success ∨ ∃ updated, Saw h (.payoutUpdate reference
        { status := some status.status, lastError := some (some reason) }) updated)

/-- The delivery looked for the payment of the charge or of the customer, and found none. -/
def Request.Unmatched (h : Hist) : Request → Prop
  | charge _ _ => (∃ key, Saw h (.paymentFindUnique key) none) ∧
      ∀ key payment, ¬ Saw h (.paymentFindUnique key) (some payment)
  | assign .. => (∃ query, Saw h (.paymentFindFirst query) none) ∧
      ∀ query payment, ¬ Saw h (.paymentFindFirst query) (some payment)
  | _ => False

/-- The delivery carried out what its event asks for. -/
def Effected (payload : PaystackWebhookPayload) (h : Hist) : Prop :=
  ∀ request, payload.asks = some request → request.CarriedOut h

/-- The delivery found no payment to carry out what its event asks for on. -/
def Unmatched (payload : PaystackWebhookPayload) (h : Hist) : Prop :=
  ∃ request, payload.asks = some request ∧ request.Unmatched h

theorem PaymentCarried.mono {payment : Payment} {reference : String}
    (hc : PaymentCarried h payment reference) (hsub : h ⊆ h') :
    PaymentCarried h' payment reference := by
  rcases hc with ⟨hst, n, hinv⟩ | ⟨v, hasked, ⟨hno, updated, hupd⟩ |
    ⟨hyes, hamount, ⟨updated, hupd⟩, hcommit, n, hinv⟩⟩
  · exact .inl ⟨hst, n, hsub hinv⟩
  · exact .inr ⟨v, hsub hasked, .inl ⟨hno, updated, hsub hupd⟩⟩
  · exact .inr ⟨v, hsub hasked,
      .inr ⟨hyes, hamount, ⟨updated, hsub hupd⟩, hcommit.mono hsub, n, hsub hinv⟩⟩

theorem Request.CarriedOut.mono (hc : request.CarriedOut h) (hsub : h ⊆ h') :
    request.CarriedOut h' := by
  cases request with
  | charge reference customerCode =>
      obtain ⟨key, payment, hsaw, hcarried⟩ := hc
      exact ⟨key, payment, hsub hsaw, hcarried.mono hsub⟩
  | assign customerCode accountNumber bankName dedicatedAccountId =>
      obtain ⟨payment, updated, hsaw, hupd⟩ := hc
      exact ⟨payment, updated, hsub hsaw, hsub hupd⟩
  | paid reference transferCode =>
      obtain ⟨payout, hsaw, hdone⟩ := hc
      exact ⟨payout, hsub hsaw, hdone.imp_right fun ⟨⟨updated, hupd⟩, hcommit⟩ =>
        ⟨⟨updated, hsub hupd⟩, hcommit.mono hsub⟩⟩
  | failed reference status reason =>
      obtain ⟨payout, hsaw, hdone⟩ := hc
      exact ⟨payout, hsub hsaw, hdone.imp_right fun ⟨updated, hupd⟩ => ⟨updated, hsub hupd⟩⟩

/-- What was carried out was found. -/
theorem Effected.matched (he : Effected payload h) : ¬ Unmatched payload h := by
  rintro ⟨request, hasks, hun⟩
  have hc := he request hasks
  cases request with
  | charge reference customerCode =>
      obtain ⟨key, payment, hsaw, -⟩ := hc
      exact hun.2 key payment hsaw
  | assign customerCode accountNumber bankName dedicatedAccountId =>
      obtain ⟨payment, updated, hsaw, -⟩ := hc
      exact hun.2 _ payment hsaw
  | paid reference transferCode => exact hun
  | failed reference status reason => exact hun

/-! ## What the services leave -/

/-- Whatever is answered, a result of the program leaves such a history. -/
abbrev Attains (p : Program α) (R : α → Hist → Prop) (h : Hist) : Prop :=
  p.Gives (fun _ => True) (fun _ _ => True) R h

/-- What the history shows stays shown. -/
theorem attains_kept {p : Program α} {K : Hist → Prop} (hK : K h)
    (mono : ∀ {h h' : Hist}, K h → h ⊆ h' → K h') : Attains p (fun _ h' => K h') h :=
  ((uses_any p).along_from fun _ _ _ _ => trivial).mono fun _ _ hs _ _ => mono hK hs.subset

/-- An operation that answers was answered so. -/
theorem await_saw (op : Op) : Attains (await op) (fun a h' => h' = ⟨op, .ok a⟩ :: h) h :=
  gives_perform op trivial fun _ _ => rfl

/-- A transition that is applied is committed. -/
theorem apply_commits {input : ApplyTransitionInput} {s : TransactionStatus}
    (hto : ∀ status context next, transition status input.event context = .ok next → next = s) :
    Attains (apply input) (fun _ h' => Committed h' input.transactionId s) h := by
  refine apply_traces trivial (fun _ _ _ _ => trivial) (fun _ _ => trivial) ?_ ?_
  · exact fun e l _ _ hok => by cases hok
  · intro tx disputes nextState a l _ hok _ _ _
    exact ⟨_, a, List.mem_append_right _ List.mem_cons_self, rfl, hto _ _ _ hok⟩

theorem markPaidByTransaction_tells (transactionId : Uuid) :
    Attains (markPaidByTransaction transactionId) (fun _ h' => ∃ n,
      Saw h' (.invoiceUpdateManyPaid transactionId [.sent, .viewed, .overdue]) n) h := by
  refine gives_bind (await_saw _) fun n h' _ hh' => ?_
  have hinv : Saw h' (.invoiceUpdateManyPaid transactionId [.sent, .viewed, .overdue]) n :=
    hh' ▸ List.mem_cons_self
  exact Prog.Gives.weaken (attains_kept hinv fun hsaw hsub => hsub hsaw) fun _ _ _ hsaw => ⟨n, hsaw⟩

theorem edges_webhook : ∀ e ∈ edges, e.2.1 = .paymentVerified .webhook → e.2.2 = .paymentProtected := by
  decide

theorem edges_payout : ∀ e ∈ edges, e.2.1 = .payoutSucceeded → e.2.2 = .completed := by decide

/-- The verification of a payment, when it gives a result. -/
theorem verifyAndProtectPayment_carries (payment : Payment) (reference : String) :
    Attains (verifyAndProtectPayment payment reference .webhook)
      (fun _ h' => PaymentCarried h' payment reference) h := by
  unfold verifyAndProtectPayment
  split
  · rename_i hst
    refine gives_bind (markPaidByTransaction_tells _) fun _ h' _ hinv => ?_
    exact gives_pure (.inl ⟨hst, hinv⟩)
  refine gives_bind (await_saw _) fun verified h₁ _ hasked => ?_
  have hasked : Saw h₁ (.verifyTransaction reference) verified := hasked ▸ List.mem_cons_self
  split
  · rename_i hno
    refine Prog.Gives.weaken (await_saw _) fun updated h₂ hs hupd => ?_
    exact .inr ⟨verified, hs.subset hasked, .inl ⟨hno, updated, hupd ▸ List.mem_cons_self⟩⟩
  split
  · exact gives_throw _
  · rename_i hyes hamount
    refine gives_bind (await_saw _) fun updated h₂ hs₂ hupd => ?_
    have hto : ∀ status context next, transition status
        (protection payment.transactionId reference .webhook).event context = .ok next →
        next = .paymentProtected := fun _ _ _ hok => edges_webhook _ (transition_ok hok) rfl
    refine gives_bind (apply_commits hto) fun _ h₃ hs₃ hcommit => ?_
    refine gives_bind (markPaidByTransaction_tells _) fun _ h₄ hs₄ hinv => ?_
    refine attains_kept ?_ fun hc hsub => hc.mono hsub
    have hupd : Saw h₂ (.paymentUpdate payment.id
        { status := some .success, rawPayload := some verified }) updated := hupd ▸ List.mem_cons_self
    exact .inr ⟨verified, (hs₂.trans (hs₃.trans hs₄)).subset hasked,
      .inr ⟨not_not.mp hyes, not_not.mp hamount, ⟨updated, (hs₃.trans hs₄).subset hupd⟩,
        hcommit.mono hs₄.subset, hinv⟩⟩

/-- No payment was looked up with success. -/
structure Unsought (h : Hist) : Prop where
  unique : ∀ key payment, ¬ Saw h (.paymentFindUnique key) (some payment)
  first : ∀ query payment, ¬ Saw h (.paymentFindFirst query) (some payment)

/-- What finds no payment leaves it so. -/
theorem Unsought.cons (hh : Unsought h) {e : Event Op.Ans Err}
    (hunique : ∀ key payment, e ≠ ⟨.paymentFindUnique key, .ok (some payment)⟩)
    (hfirst : ∀ query payment, e ≠ ⟨.paymentFindFirst query, .ok (some payment)⟩) :
    Unsought (e :: h) where
  unique key payment hsaw := by
    rcases List.mem_cons.mp hsaw with heq | hmem
    · exact hunique key payment heq.symm
    · exact hh.unique key payment hmem
  first query payment hsaw := by
    rcases List.mem_cons.mp hsaw with heq | hmem
    · exact hfirst query payment heq.symm
    · exact hh.first query payment hmem

/-- How a search for a payment ended: with one it looked up, or with nothing found. -/
def Sought (h : Hist) : Option Payment → Prop
  | some payment => ∃ key, Saw h (.paymentFindUnique key) (some payment)
  | none => (∃ key, Saw h (.paymentFindUnique key) none) ∧
      ∀ key payment, ¬ Saw h (.paymentFindUnique key) (some payment)

/-- A lookup decides the search. -/
theorem sought_of_lookup (hnone : ∀ key payment, ¬ Saw h (.paymentFindUnique key) (some payment))
    (key : PaymentKey) (found : Option Payment) :
    Sought (⟨.paymentFindUnique key, .ok found⟩ :: h) found := by
  cases found with
  | some payment => exact ⟨key, List.mem_cons_self⟩
  | none =>
      refine ⟨⟨key, List.mem_cons_self⟩, fun key payment hsaw => ?_⟩
      rcases List.mem_cons.mp hsaw with heq | hmem
      · cases heq
      · exact hnone key payment hmem

theorem resolveDvaPayment_sought (customerCode reference : String)
    (hnone : ∀ key payment, ¬ Saw h (.paymentFindUnique key) (some payment)) :
    Attains (resolveDvaPayment customerCode reference) (fun found h' => Sought h' found) h := by
  unfold resolveDvaPayment
  refine gives_bind (await_saw _) fun bound h₁ hs₁ hh₁ => ?_
  have hsought := hh₁ ▸ sought_of_lookup hnone (.providerChargeReference reference) bound
  cases bound with
  | some alreadyBound => exact gives_pure hsought
  | none =>
      refine gives_bind (await_saw _) fun first h₂ hs₂ hh₂ => ?_
      have hnone₂ : ∀ key payment, ¬ Saw h₂ (.paymentFindUnique key) (some payment) := by
        intro key payment hsaw
        rw [hh₂] at hsaw
        rcases List.mem_cons.mp hsaw with heq | hmem
        · cases heq
        · exact hsought.2 key payment hmem
      cases first with
      | none =>
          obtain ⟨key, hkey⟩ := hsought.1
          exact gives_pure ⟨⟨key, hs₂.subset hkey⟩, hnone₂⟩
      | some payment =>
          refine gives_bind (await_saw _) fun count h₃ hs₃ hh₃ => ?_
          have hnone₃ : ∀ key payment, ¬ Saw h₃ (.paymentFindUnique key) (some payment) := by
            intro key payment hsaw
            rw [hh₃] at hsaw
            rcases List.mem_cons.mp hsaw with heq | hmem
            · cases heq
            · exact hnone₂ key payment hmem
          split
          · exact Prog.Gives.weaken (await_saw _) fun found h₄ _ hh₄ =>
              hh₄ ▸ sought_of_lookup hnone₃ _ found
          · exact Prog.Gives.weaken (await_saw _) fun found h₄ _ hh₄ =>
              hh₄ ▸ sought_of_lookup hnone₃ _ found

/-! ## Requests handled -/

theorem handleChargeSuccess_carries (reference : String) (customerCode : Option String)
    (hh : Unsought h) :
    Attains (handleChargeSuccess reference customerCode .webhook) (fun _ h' =>
      (Request.charge reference customerCode).CarriedOut h' ∨
        (Request.charge reference customerCode).Unmatched h') h := by
  unfold handleChargeSuccess
  refine gives_bind (await_saw _) fun hosted h₁ hs₁ hh₁ => ?_
  have hsought := hh₁ ▸ sought_of_lookup hh.unique (.providerReference reference) hosted
  cases hosted with
  | some hosted =>
      obtain ⟨key, hkey⟩ := hsought
      refine gives_bind (verifyAndProtectPayment_carries hosted reference) fun _ h' hs hc => ?_
      exact gives_pure (.inl ⟨key, hosted, hs.subset hkey, hc⟩)
  | none =>
      dsimp only
      split
      · exact gives_pure (.inr hsought)
      · rename_i code _
        refine gives_bind (resolveDvaPayment_sought code reference hsought.2) fun found h₂ hs₂ hfound => ?_
        cases found with
        | none => exact gives_pure (.inr hfound)
        | some payment =>
            obtain ⟨key, hkey⟩ := hfound
            refine gives_bind (verifyAndProtectPayment_carries payment reference) fun _ h' hs hc => ?_
            exact gives_pure (.inl ⟨key, payment, hs.subset hkey, hc⟩)

theorem attachDedicatedAccount_carries (customerCode accountNumber bankName : String)
    (dedicatedAccountId : Option String) (hh : Unsought h) :
    Attains (attachDedicatedAccount customerCode accountNumber bankName dedicatedAccountId)
      (fun _ h' =>
        (Request.assign customerCode accountNumber bankName dedicatedAccountId).CarriedOut h' ∨
        (Request.assign customerCode accountNumber bankName dedicatedAccountId).Unmatched h') h := by
  unfold attachDedicatedAccount
  refine gives_bind (await_saw _) fun found h₁ hs₁ hh₁ => ?_
  cases found with
  | none =>
      refine gives_pure (.inr ⟨⟨_, hh₁ ▸ List.mem_cons_self⟩, fun query payment hsaw => ?_⟩)
      rw [hh₁] at hsaw
      rcases List.mem_cons.mp hsaw with heq | hmem
      · cases heq
      · exact hh.first query payment hmem
  | some payment =>
      refine gives_bind (await_saw _) fun updated h₂ hs₂ hh₂ => ?_
      have hcarried : (Request.assign customerCode accountNumber bankName
          dedicatedAccountId).CarriedOut h₂ :=
        ⟨payment, updated, hs₂.subset (hh₁ ▸ List.mem_cons_self), hh₂ ▸ List.mem_cons_self⟩
      exact Prog.Gives.weaken (attains_kept hcarried fun hc hsub => hc.mono hsub)
        fun _ _ _ hc => .inl hc

theorem markPaid_carries (reference transferCode : String) :
    Attains (markPaid reference transferCode)
      (fun _ h' => (Request.paid reference transferCode).CarriedOut h') h := by
  unfold markPaid
  refine gives_bind (await_saw _) fun found h₁ hs₁ hh₁ => ?_
  cases found with
  | none => exact gives_throw _
  | some payout =>
      have hsaw : Saw h₁ (.payoutFindUnique reference) (some payout) := hh₁ ▸ List.mem_cons_self
      dsimp only
      split
      · rename_i hst
        exact gives_pure ⟨payout, hsaw, .inl hst⟩
      · refine gives_bind (await_saw _) fun updated h₂ hs₂ hh₂ => ?_
        refine gives_bind (apply_commits (s := .completed)
          fun _ _ _ hok => edges_payout _ (transition_ok hok) rfl) fun _ h₃ hs₃ hcommit => ?_
        exact gives_pure ⟨payout, (hs₂.trans hs₃).subset hsaw,
          .inr ⟨⟨updated, hs₃.subset (hh₂ ▸ List.mem_cons_self)⟩, hcommit⟩⟩

theorem markFailed_carries (reference : String) (status : FailedStatus) (reason : String) :
    Attains (markFailed reference status reason)
      (fun _ h' => (Request.failed reference status reason).CarriedOut h') h := by
  unfold markFailed
  refine gives_bind (await_saw _) fun found h₁ hs₁ hh₁ => ?_
  cases found with
  | none => exact gives_throw _
  | some payout =>
      have hsaw : Saw h₁ (.payoutFindUnique reference) (some payout) := hh₁ ▸ List.mem_cons_self
      dsimp only
      split
      · rename_i hst
        exact gives_pure ⟨payout, hsaw, .inl hst⟩
      · refine gives_bind (await_saw _) fun updated h₂ hs₂ hh₂ => ?_
        refine gives_bind (await_saw _) fun _ h₃ hs₃ _ => ?_
        exact gives_pure ⟨payout, (hs₂.trans hs₃).subset hsaw,
          .inr ⟨updated, hs₃.subset (hh₂ ▸ List.mem_cons_self)⟩⟩

/-- **A request that is handled is carried out,** unless its payment was not found. -/
theorem handle_carries (request : Request) (hh : Unsought h) :
    Attains request.handle (fun _ h' => request.CarriedOut h' ∨ request.Unmatched h') h := by
  cases request with
  | charge reference customerCode => exact handleChargeSuccess_carries reference customerCode hh
  | assign customerCode accountNumber bankName dedicatedAccountId =>
      exact gives_bind (attachDedicatedAccount_carries _ _ _ _ hh) fun _ _ _ hc => gives_pure hc
  | paid reference transferCode =>
      exact gives_bind (markPaid_carries _ _) fun _ _ _ hc => gives_pure (.inl hc)
  | failed reference status reason =>
      exact gives_bind (markFailed_carries _ _ _) fun _ _ _ hc => gives_pure (.inl hc)

/-- The delivery carried out what its event asks for, or found no payment for it. -/
def Attempted (payload : PaystackWebhookPayload) (h : Hist) : Prop :=
  Effected payload h ∨ Unmatched payload h

theorem route_carries (hh : Unsought h) :
    Attains (route payload) (fun _ h' => Attempted payload h') h := by
  rw [route_eq]
  cases hasks : payload.asks with
  | none => exact gives_pure (.inl fun request hr => by rw [hasks] at hr; cases hr)
  | some request =>
      refine Prog.Gives.weaken (handle_carries request hh) fun _ h' _ hc => hc.imp ?_ ?_
      · rintro hc other hother
        obtain rfl := Option.some.inj (hasks.symm.trans hother)
        exact hc
      · exact fun hun => ⟨request, hasks, hun⟩

/-! ## A delivery -/

/-- What the delivery of an event leaves: it is answered as taken in only if its row was stored and what
it asks for was attempted. -/
def Delivery (payload : PaystackWebhookPayload) (result : WebhookResult) (h : Hist) : Prop :=
  ∀ handled, result = { handled := some handled } →
    (∃ row, Saw h (.webhookEventCreate ⟨eventKey payload, payload.event, payload⟩) row) ∧
      Attempted payload h

/-- Noting how the event went finds nothing. -/
theorem Attempted.noted (ha : Attempted payload h) (id : Uuid) (text : String) (a : Unit) :
    Attempted payload (⟨.webhookEventUpdate id text, .ok a⟩ :: h) := by
  refine ha.imp (fun he request hr => (he request hr).mono (List.subset_cons_self _ _)) ?_
  rintro ⟨request, hasks, hun⟩
  refine ⟨request, hasks, ?_⟩
  cases request with
  | charge reference customerCode =>
      obtain ⟨⟨key, hkey⟩, hnone⟩ := hun
      refine ⟨⟨key, List.mem_cons_of_mem _ hkey⟩, fun key payment hsaw => ?_⟩
      rcases List.mem_cons.mp hsaw with heq | hmem
      · cases heq
      · exact hnone key payment hmem
  | assign customerCode accountNumber bankName dedicatedAccountId =>
      obtain ⟨⟨query, hquery⟩, hnone⟩ := hun
      refine ⟨⟨query, List.mem_cons_of_mem _ hquery⟩, fun query payment hsaw => ?_⟩
      rcases List.mem_cons.mp hsaw with heq | hmem
      · cases heq
      · exact hnone query payment hmem
  | paid reference transferCode => exact hun
  | failed reference status reason => exact hun

theorem processEvent_carries (id : Uuid) (hh : Unsought h) (row : WebhookEvent)
    (hrow : Saw h (.webhookEventCreate ⟨eventKey payload, payload.event, payload⟩) row) :
    Attains (processEvent id payload) (Delivery payload) h := by
  unfold processEvent
  refine gives_tryCatch ?_ fun e h' => gives_bind (await_saw _) fun _ _ _ _ => gives_throw _
  refine gives_bind (route_carries hh) fun handled h₁ hs₁ ha => ?_
  refine gives_bind (await_saw _) fun u h₂ hs₂ hh₂ => ?_
  exact gives_pure fun _ _ => ⟨⟨row, (hs₁.trans hs₂).subset hrow⟩, hh₂ ▸ ha.noted _ _ _⟩

theorem isStale_unsought : Attains (isStale env payload.dataOrEmpty) (fun _ h' => Unsought h') [] := by
  have hnil : Unsought [] := ⟨fun _ _ h => (by cases h), fun _ _ h => (by cases h)⟩
  unfold isStale
  split
  · exact gives_pure hnil
  · refine gives_bind (await_saw _) fun now h₁ _ hh₁ => gives_pure ?_
    rw [hh₁]
    exact hnil.cons (fun _ _ h => by cases h) fun _ _ h => by cases h

theorem recordEvent_saw (hh : Unsought h) : Attains (recordEvent payload) (fun recorded h' =>
    ∀ id, recorded = some id → Unsought h' ∧
      ∃ row, Saw h' (.webhookEventCreate ⟨eventKey payload, payload.event, payload⟩) row) h := by
  unfold recordEvent
  refine gives_tryCatch ?_ fun e h' => ?_
  · refine gives_bind (await_saw _) fun row h₁ _ hh₁ => gives_pure fun id _ => ?_
    rw [hh₁]
    exact ⟨hh.cons (fun _ _ h => (by cases h)) fun _ _ h => (by cases h), row, List.mem_cons_self⟩
  · split
    · exact gives_pure fun _ hid => by cases hid
    · exact gives_throw _

/-- **What a delivery leaves.** -/
theorem handlePaystackEvent_carries {rawBody signature : String}
    (hparse : env.parse rawBody = some payload) :
    Attains (handlePaystackEvent env rawBody signature) (Delivery payload) [] := by
  unfold handlePaystackEvent
  split
  · exact gives_throw _
  rw [hparse]
  dsimp only
  refine gives_bind isStale_unsought fun stale h₁ _ hh₁ => ?_
  split
  · exact gives_pure fun _ h => by cases h
  refine gives_bind (recordEvent_saw hh₁) fun recorded h₂ _ hrec => ?_
  cases recorded with
  | none => exact gives_pure fun _ h => by cases h
  | some id =>
      obtain ⟨hh₂, row, hrow⟩ := hrec id rfl
      exact processEvent_carries id hh₂ row hrow

end Meduman
