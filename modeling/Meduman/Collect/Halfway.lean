import Meduman.Collect.Single
import Meduman.Effect.Task

/-!
# Collections left halfway

A checkout opens its transaction, then creates a payment, then opens a charge; a verification
collects a payment and then protects its transaction. In between, the call alone knows what is left.

* `Halfway`, `halfway`, `left` : what a call has left to do
* `Proceeds` : what a call promises while something is left
* **`code_tidy`** : no call ends with anything left
-/

set_option autoImplicit false

namespace Meduman

open Effect

variable {env : Env} {c : Call} {h : Hist} {α : Type} {id : Uuid}

/-! ## What is left -/

/-- What a checkout or a verification has left to do for its transaction. -/
inductive Halfway
  | uncharged (transactionId : Uuid)
  | unopened (transactionId : Uuid) (reference : String)
  | unprotected (transactionId : Uuid)
deriving DecidableEq

def Halfway.transactionId : Halfway → Uuid
  | uncharged id | unopened id _ | unprotected id => id

/-- What is left after an event; none when the event says nothing about it. -/
def halfway : Event Op.Ans Err → Option (Option Halfway)
  | ⟨.commitTransition d, .ok _⟩ =>
      some (if d.newState = .paymentPending then some (.uncharged d.transactionId) else none)
  | ⟨.paymentCreate d, .ok _⟩ =>
      some (if d.providerCustomerCode.isNone then
        some (.unopened d.transactionId d.providerReference) else none)
  | ⟨.initializeTransaction _, .ok _⟩ => some none
  | ⟨.paymentUpdate _ d, .ok p⟩ =>
      some (if d.status = some .success then some (.unprotected p.transactionId) else none)
  | ⟨.transactionFindWithDisputes .., .ok found⟩ =>
      -- a transaction that is past its payment needs no protection
      if found.any fun r => r.1.status = .paymentPending then none else some none
  | ⟨.enqueueWebhookDelivery _, _⟩ => none
  | ⟨_, .error _⟩ => some none
  | _ => none

/-- What a call has left to do. -/
abbrev left (h : Hist) : Option Halfway := task halfway h

/-- Two payment rows the call was shown are one row's, with these transactions. -/
def SamePayment (h : Hist) (a b : Uuid) : Prop :=
  ∃ p q, PaymentShown h p ∧ PaymentShown h q ∧ p.id = q.id ∧ p.transactionId = a ∧
    q.transactionId = b

/-- What a call promises while it has something left to do. -/
def Proceeds (h : Hist) : Op → Prop
  | .commitTransition d => left h = none ∨
      ∃ b, left h = some (.unprotected b) ∧ SamePayment h d.transactionId b ∧
        d.oldState = .paymentPending
  | .transactionFindWithDisputes id _ => left h = none ∨
      ∃ b, left h = some (.unprotected b) ∧ SamePayment h id b
  | .paymentCreate d => left h = some (.uncharged d.transactionId)
  | .initializeTransaction i => ∃ id, left h = some (.unopened id i.reference)
  | .paymentUpdate .. => left h = none
  | _ => True

/-- The program leaves nothing to be done. -/
abbrev Tidy (p : Program α) : Prop := p.Tidy halfway Possible Proceeds

abbrev Op.Aside (op : Op) : Prop := Effect.Aside halfway Proceeds op

/-! ## What has nothing to do with it -/

theorem SamePayment.mono {a b : Uuid} {h' : Hist} (hs : SamePayment h a b) (hsub : h ⊆ h') :
    SamePayment h' a b := by
  obtain ⟨p, q, hp, hq, hrest⟩ := hs
  exact ⟨p, q, hp.mono hsub, hq.mono hsub, hrest⟩

theorem clears_error {op : Op} (e : Err) : Clears halfway ⟨op, .error e⟩ := by
  cases op <;> rfl

theorem clears_load {id : Uuid} {statuses : List DisputeStatus}
    (a : Except Err (Op.transactionFindWithDisputes id statuses).Ans) :
    Clears halfway ⟨.transactionFindWithDisputes id statuses, a⟩ := by
  cases a with
  | error e => rfl
  | ok found =>
      simp only [Clears, halfway]
      split <;> rfl

/-- Only the checkout puts a transaction up for payment. -/
theorem edges_checkout : ∀ e ∈ edges, e.2.2 = .paymentPending → e.2.1 = .buyerInitiateCheckout := by
  decide

theorem edges_verified : ∀ e ∈ edges, ∀ source, e.2.1 = .paymentVerified source →
    e.1 = .paymentPending := by
  intro e he source
  revert e
  cases source <;> decide

theorem aside_commit {d : TransitionWrite} (hd : d.newState ≠ .paymentPending) :
    (Op.commitTransition d).Aside := by
  refine ⟨fun a => ?_, fun h hh => .inl hh⟩
  cases a with
  | error e => rfl
  | ok a => simp [Clears, halfway, hd]

theorem aside_paymentUpdate {id : Uuid} {d : PaymentUpdate} (hd : d.status ≠ some .success) :
    (Op.paymentUpdate id d).Aside := by
  refine ⟨fun a => ?_, fun h hh => hh⟩
  cases a with
  | error e => rfl
  | ok a => simp [Clears, halfway, hd]

/-- What a call that neither checks out nor verifies does. -/
theorem aside_of_does {op : Op} (hchecks : ∀ buyerId, ¬ c.ChecksOut buyerId)
    (hverifies : ¬ c.Verifies)
    (happlies : ∀ input, c.Applies input → input.event ≠ .buyerInitiateCheckout)
    (hop : c.Does op) : op.Aside := by
  cases op with
  | commitTransition d =>
      obtain ⟨input, tx, context, nextState, hin, hok, rfl⟩ := hop
      exact aside_commit fun hnew =>
        happlies input hin (edges_checkout _ (transition_ok hok) hnew)
  | paymentCreate d => exact absurd hop.choose_spec (hchecks _)
  | initializeTransaction i => exact absurd hop.choose_spec (hchecks _)
  | paymentUpdate id d => exact absurd hop hverifies
  | transactionFindWithDisputes id statuses => exact ⟨clears_load, fun h hh => .inl hh⟩
  | _ => exact ⟨fun a => by cases a <;> rfl, fun _ _ => trivial⟩

theorem aside_of_isQuiet (op : Op) (hop : op.isQuiet) : op.Aside := by
  cases op with
  | invoiceUpdateManyPaid _ _ | invoiceFindFirst _ | auditLogCreate _ | transactionFindUnique _
  | enqueueChatOutbound _ => exact ⟨fun a => by cases a <;> rfl, fun _ _ => trivial⟩
  | _ => exact hop.elim

/-! ## Verification -/

theorem left_dispatch {eventId : Uuid} (a : Except Err (Op.enqueueWebhookDelivery eventId).Ans) :
    left (⟨.enqueueWebhookDelivery eventId, a⟩ :: h) = left h := by
  rw [left, task_cons]
  cases a <;> rfl

theorem left_error {op : Op} (e : Err) (h : Hist)
    (hop : ∀ eventId, op ≠ .enqueueWebhookDelivery eventId) : left (⟨op, .error e⟩ :: h) = none := by
  rw [left, task_cons]
  cases op <;> first | rfl | exact absurd rfl (hop _)

theorem paymentShown_cons {e : Event Op.Ans Err} {p : Payment} (he : paymentOf e = some p) :
    PaymentShown (e :: h) p := ⟨e, List.mem_cons_self, he⟩

/-- The protection of a collected payment's transaction leaves nothing, however it ends. -/
theorem protection_finishes {b : Uuid} {r : String} {source : TrustedPaymentSource}
    {Q : Except Err Transaction → Hist → Prop} (hleft : left h = some (.unprotected b))
    (hsame : SamePayment h id b) (hQ : ∀ r h', left h' = none → Q r h') :
    (apply (protection id r source)).Along Possible Proceeds Q h := by
  unfold apply
  rw [along_perform_bind]
  refine ⟨.inr ⟨b, hleft, hsame⟩, fun e _ => hQ _ _ (left_error e h fun _ => Op.noConfusion), ?_⟩
  rintro (_ | ⟨tx, disputes⟩) -
  · exact hQ _ _ rfl
  dsimp only
  split
  · -- refused, since the transaction was past its payment
    rename_i reason message hno
    refine hQ _ _ ?_
    have hst : tx.status ≠ .paymentPending := by
      intro hst
      rw [hst] at hno
      cases source <;> cases hno
    simp [task_cons, halfway, hst]
  · rename_i nextState hok
    have hst : tx.status = .paymentPending := by
      exact edges_verified _ (transition_ok hok) _ rfl
    have hnew : nextState ≠ .paymentPending := fun hnew => by
      have hev := edges_checkout _ (transition_ok hok) hnew
      cases hev
    have hload : left ((protection id r source).load tx disputes :: h) =
        some (.unprotected b) := by
      rw [← hleft, left, task_cons]
      simp [halfway, hst]
    rw [along_perform_bind]
    refine ⟨.inr ⟨b, hload, hsame.mono (List.subset_cons_self _ _), hst⟩,
      fun e _ => hQ _ _ (left_error e _ fun _ => Op.noConfusion), ?_⟩
    have hdone : ∀ a h', left (⟨.commitTransition ((protection id r source).write tx nextState),
        .ok a⟩ :: h') = none := fun a h' => by
      simp [task_cons, halfway, ApplyTransitionInput.write, hnew]
    rintro ⟨updatedTx, _ | eventId⟩ -
    · exact hQ _ _ (hdone _ _)
    · refine (along_bind _ _).mpr ((along_tryCatch _ _).mpr
        ((along_perform _ _).mpr ⟨trivial, fun e _ => ?_, fun a _ => ?_⟩))
      · exact hQ _ _ ((left_dispatch _).trans (hdone _ _))
      · exact hQ _ _ ((left_dispatch _).trans (hdone _ _))

/-- **A verification leaves nothing.** -/
theorem verifyAndProtectPayment_finishes {payment : Payment} {reference : String}
    {source : TrustedPaymentSource} (hnone : left h = none) (hshown : PaymentShown h payment)
    {Q : Except Err Payment → Hist → Prop} (hQ : ∀ r h', left h' = none → Q r h') :
    (verifyAndProtectPayment payment reference source).Along Possible Proceeds Q h := by
  have quiet {β : Type} {p : Program β} (hp : p.Uses Op.isQuiet) : Tidy p :=
    (hp.mono aside_of_isQuiet).tidy
  unfold verifyAndProtectPayment
  split
  · refine (Prog.Tidy.bind (quiet (markPaidByTransaction_quiet _)) fun _ => tidy_done _) h hnone
      |>.mono hQ
  · rw [along_perform_bind]
    refine ⟨trivial, fun e _ => hQ _ _ (left_error e h fun _ => Op.noConfusion), fun v _ => ?_⟩
    have hasked : left (⟨.verifyTransaction reference, .ok v⟩ :: h) = none := hnone
    split
    · have hother : some (if v.status = "abandoned" then PaymentStatus.abandoned else .failed) ≠
          some .success := by split <;> simp
      exact (along_perform _ _).mpr ⟨hasked,
        fun e _ => hQ _ _ (left_error e _ fun _ => Op.noConfusion),
        fun p _ => hQ _ _ (((aside_paymentUpdate hother).1 _).task_cons hasked)⟩
    · split
      · exact hQ _ _ hasked
      · rw [along_perform_bind]
        refine ⟨hasked, fun e _ => hQ _ _ (left_error e _ fun _ => Op.noConfusion), ?_⟩
        rintro updated hpossible
        obtain ⟨u, w, -, p, -, hid, hupd⟩ := hpossible.answered
        rw [along_bind]
        refine protection_finishes (b := updated.transactionId) (by simp [task_cons, halfway])
          ⟨payment, updated, hshown.mono fun _ he => List.mem_cons_of_mem _ (List.mem_cons_of_mem _ he),
            paymentShown_cons rfl, ?_, rfl, rfl⟩ fun r h' hh' => ?_
        · rw [hupd, ← hid]
          rfl
        · cases r with
          | error e => exact hQ _ _ hh'
          | ok tx =>
              refine (Prog.Tidy.bind (quiet (markPaidByTransaction_quiet _)) fun _ =>
                Prog.Tidy.bind (quiet (notifyProtected_quiet _)) fun _ => tidy_done _) h' hh'
                |>.mono hQ

/-- A call loads a payment, and verifies it. -/
theorem tidy_found {op : Op} {f : op.Ans → Program α} (hop : op.Aside)
    (hf : ∀ a h, left h = none → (⟨op, .ok a⟩ : Event Op.Ans Err) ∈ h →
      (f a).Along Possible Proceeds (fun _ h' => left h' = none) h) : Tidy (await op >>= f) := by
  intro h hh
  rw [along_perform_bind]
  exact ⟨hop.2 h hh, fun e _ => (clears_error e).task_cons hh,
    fun a _ => hf a _ ((hop.1 _).task_cons hh) List.mem_cons_self⟩

theorem aside_find (key : PaymentKey) : (Op.paymentFindUnique key).Aside :=
  ⟨fun a => by cases a <;> rfl, fun _ _ => trivial⟩

theorem aside_findFirst (query : PaymentWhere) : (Op.paymentFindFirst query).Aside :=
  ⟨fun a => by cases a <;> rfl, fun _ _ => trivial⟩

theorem verifyAndProtect_tidy (reference : String) (source : TrustedPaymentSource) :
    Tidy (verifyAndProtect reference source) := by
  refine tidy_found (aside_find _) fun found h hh hmem => ?_
  cases found with
  | none => exact hh
  | some payment =>
      exact verifyAndProtectPayment_finishes hh ⟨_, hmem, rfl⟩ fun _ _ hh' => hh'

theorem reconcilePayment_tidy (paymentId : Uuid) : Tidy (reconcilePayment paymentId) := by
  refine tidy_found (aside_find _) fun found h hh hmem => ?_
  cases found with
  | none => exact hh
  | some payment =>
      dsimp only
      split
      · exact hh
      · exact verifyAndProtectPayment_finishes hh ⟨_, hmem, rfl⟩ fun _ _ hh' => hh'

theorem reconcileEach_tidy (stranded : List Payment) (n : Nat) :
    Tidy (reconcileEach stranded n) := by
  induction stranded generalizing n with
  | nil => exact tidy_done _
  | cons payment rest ih =>
      refine Prog.Tidy.bind (Prog.Tidy.tryCatch ?_ fun _ => tidy_done _) fun reached => ih _
      exact Prog.Tidy.bind (reconcilePayment_tidy payment.id) fun _ => tidy_done _

theorem reconcilePending_tidy : Tidy (reconcilePending env) := by
  have aside {op : Op} (hop : op = .now ∨ ∃ s t n, op = .paymentFindMany s t n) : op.Aside := by
    rcases hop with rfl | ⟨s, t, n, rfl⟩ <;>
      exact ⟨fun a => by cases a <;> rfl, fun _ _ => trivial⟩
  refine Prog.Tidy.bind (tidy_perform (aside (.inl rfl))) fun now => ?_
  refine Prog.Tidy.bind (tidy_perform (aside (.inr ⟨_, _, _, rfl⟩))) fun stranded => ?_
  exact Prog.Tidy.bind (reconcileEach_tidy stranded 0) fun _ => tidy_done _

/-- The payment a charge is resolved to was shown. -/
theorem resolveDvaPayment_finds (customerCode reference : String) (hh : left h = none) :
    (resolveDvaPayment customerCode reference).Along Possible Proceeds (fun r h' =>
      left h' = none ∧ ∀ payment, r = .ok (some payment) → PaymentShown h' payment) h := by
  have herr {op : Op} {e : Err} {h : Hist} (hh : left h = none) :
      left (⟨op, .error e⟩ :: h) = none ∧ ∀ payment,
        (Except.error e : Except Err (Option Payment)) = .ok (some payment) →
          PaymentShown (⟨op, .error e⟩ :: h) payment :=
    ⟨(clears_error e).task_cons hh, fun _ heq => by cases heq⟩
  have hfind {key : PaymentKey} {h : Hist} (hh : left h = none) :
      (await (.paymentFindUnique key)).Along Possible Proceeds (fun r h' =>
        left h' = none ∧ ∀ payment, r = .ok (some payment) → PaymentShown h' payment) h := by
    refine (along_perform _ _).mpr ⟨trivial, fun e _ => herr hh, fun a _ => ⟨hh, ?_⟩⟩
    rintro payment heq
    cases heq
    exact paymentShown_cons rfl
  unfold resolveDvaPayment
  rw [along_perform_bind]
  refine ⟨trivial, fun e _ => herr hh, ?_⟩
  rintro (_ | alreadyBound) -
  · rw [along_perform_bind]
    refine ⟨trivial, fun e _ => herr hh, ?_⟩
    rintro (_ | payment) -
    · exact ⟨hh, fun _ heq => by cases heq⟩
    · rw [along_perform_bind]
      refine ⟨trivial, fun e _ => herr hh, fun count _ => ?_⟩
      have hbound : ∀ h₁ : Hist, left h₁ = none →
          left (⟨.paymentBindCharge payment.id reference, .ok count⟩ :: h₁) = none :=
        fun _ hh => hh
      split
      · exact hfind (hbound _ hh)
      · exact hfind (hbound _ hh)
  · refine ⟨hh, ?_⟩
    rintro payment heq
    cases heq
    exact paymentShown_cons rfl

theorem handleChargeSuccess_tidy (reference : String) (customerCode : Option String)
    (source : TrustedPaymentSource) : Tidy (handleChargeSuccess reference customerCode source) := by
  have verified {payment : Payment} {h : Hist} (hh : left h = none) (hs : PaymentShown h payment) :
      (verifyAndProtectPayment payment reference source >>= fun _ => pure true).Along Possible
        Proceeds (fun _ h' => left h' = none) h := by
    rw [along_bind]
    refine verifyAndProtectPayment_finishes hh hs fun r h' hh' => ?_
    cases r with
    | ok a => exact hh'
    | error e => exact hh'
  refine tidy_found (aside_find _) fun found h hh hmem => ?_
  cases found with
  | some hosted => exact verified hh ⟨_, hmem, rfl⟩
  | none =>
      dsimp only
      split
      · exact hh
      · rw [along_bind]
        refine (resolveDvaPayment_finds _ _ hh).mono fun r h' hr => ?_
        rcases r with e | _ | payment
        · exact hr.1
        · exact hr.1
        · exact verified hr.1 (hr.2 payment rfl)

theorem attachDedicatedAccount_tidy (customerCode accountNumber bankName : String)
    (dedicatedAccountId : Option String) :
    Tidy (attachDedicatedAccount customerCode accountNumber bankName dedicatedAccountId) := by
  have aside {op : Op} (hop : (∃ key, op = .transactionFindUnique key) ∨
      ∃ d, op = .enqueueChatOutbound d) : op.Aside := by
    rcases hop with ⟨key, rfl⟩ | ⟨d, rfl⟩ <;>
      exact ⟨fun a => by cases a <;> rfl, fun _ _ => trivial⟩
  unfold attachDedicatedAccount
  refine Prog.Tidy.bind (tidy_perform (aside_findFirst _)) fun found => ?_
  cases found with
  | none => exact tidy_done _
  | some payment =>
      refine Prog.Tidy.bind (tidy_perform (aside_paymentUpdate (by simp))) fun updated => ?_
      refine Prog.Tidy.bind (tidy_perform (aside (.inl ⟨_, rfl⟩))) fun tx => ?_
      cases tx with
      | none => exact tidy_done _
      | some tx =>
          dsimp only
          cases tx.buyerId with
          | none => exact tidy_done _
          | some buyerId =>
              exact Prog.Tidy.bind (tidy_perform (aside (.inr ⟨_, rfl⟩))) fun _ => tidy_done _

/-! ## Checkouts -/

/-- The transition of a checkout leaves a transaction to be charged. -/
theorem checkout_leaves {buyerId : Uuid} {Q : Except Err Transaction → Hist → Prop}
    (hh : left h = none) (herr : ∀ e h', left h' = none → Q (.error e) h')
    (hok : ∀ t h', left h' = some (.uncharged id) → Q (.ok t) h') :
    (apply (checkout id buyerId)).Along Possible Proceeds Q h := by
  refine apply_traces (.inl hh) (fun tx disputes nextState _ => .inl ((clears_load _).task_cons hh))
    (fun _ _ => trivial) (fun e l hl => herr e _ (Clears.task_append (fun e he => ?_) hh))
    fun tx disputes nextState a l hl hnext _ => hok _ _ ?_
  · have hrefusal := hl e he
    unfold Event.refusal at hrefusal
    split at hrefusal
    · exact clears_load _
    · exact clears_error _
    · exact hrefusal.elim
  · have hpending : nextState = .paymentPending := by
      have hedge := transition_ok hnext
      revert hedge
      generalize tx.status = s
      have hall : ∀ e ∈ edges, e.2.1 = .buyerInitiateCheckout → e.2.2 = .paymentPending := by decide
      exact fun hedge => hall _ hedge rfl
    have hquiet : ∀ e ∈ l, halfway e = none := by
      intro e he
      have hdispatches := hl e he
      unfold Event.dispatches at hdispatches
      split at hdispatches
      · rename_i a
        cases a <;> rfl
      · exact hdispatches.elim
    rw [left, task_append hquiet, task_cons, hpending]
    rfl

/-- What a checkout does between its transition and its payment leaves the transaction uncharged. -/
theorem left_served {q : Op} {a : q.Ans} (hop : halfway ⟨q, .ok a⟩ = none) :
    left (⟨q, .ok a⟩ :: h) = left h := by
  rw [left, task_cons, hop]
  rfl

theorem linkBuyer_leaves {tx : Transaction} {buyerId : Uuid} {Q : Except Err Unit → Hist → Prop}
    (hleft : left h = some (.uncharged id)) (herr : ∀ e h', left h' = none → Q (.error e) h')
    (hok : ∀ h', left h' = some (.uncharged id) → Q (.ok ()) h') :
    (linkBuyer tx buyerId).Along Possible Proceeds Q h := by
  unfold linkBuyer
  split
  · exact (along_perform _ _).mpr ⟨trivial,
      fun e _ => herr e _ (left_error e _ fun _ => Op.noConfusion),
      fun a _ => hok _ ((left_served rfl).trans hleft)⟩
  · exact hok _ hleft

theorem initializeCollection_tidy (input : InitializeCollectionInput) :
    Tidy (initializeCollection env input) := by
  have hresolve : Tidy (resolveTransaction input) := by
    have aside (key : TransactionKey) : (Op.transactionFindUnique key).Aside :=
      ⟨fun a => by cases a <;> rfl, fun _ _ => trivial⟩
    unfold resolveTransaction
    split
    · exact tidy_perform (aside _)
    · exact tidy_perform (aside _)
    · exact tidy_done _
  unfold initializeCollection
  refine Prog.Tidy.bind hresolve fun found => ?_
  cases found with
  | none => exact tidy_done _
  | some tx =>
      intro h hh
      rw [along_bind]
      refine checkout_leaves hh (fun e h' hh' => hh') fun t h₁ hleft₁ => ?_
      rw [then_ok, along_bind]
      refine linkBuyer_leaves hleft₁ (fun e h' hh' => hh') fun h₂ hleft₂ => ?_
      rw [then_ok, along_perform_bind]
      refine ⟨trivial, fun e _ => left_error e _ fun _ => Op.noConfusion, fun uuid _ => ?_⟩
      rw [along_perform_bind]
      refine ⟨(left_served rfl).trans hleft₂,
        fun e _ => left_error e _ fun _ => Op.noConfusion, fun payment _ => ?_⟩
      rw [along_perform_bind]
      refine ⟨⟨tx.id, ?_⟩, fun e _ => left_error e _ fun _ => Op.noConfusion, fun url _ => ?_⟩
      · simp [task_cons, halfway]
      · simp [task_cons, halfway]

theorem initializeVirtualAccount_tidy (transactionId buyerId : Uuid) (email : String) :
    Tidy (initializeVirtualAccount transactionId buyerId email) := by
  have aside (key : TransactionKey) : (Op.transactionFindUnique key).Aside :=
    ⟨fun a => by cases a <;> rfl, fun _ _ => trivial⟩
  unfold initializeVirtualAccount
  refine Prog.Tidy.bind (tidy_perform (aside _)) fun found => ?_
  cases found with
  | none => exact tidy_done _
  | some tx =>
      refine Prog.Tidy.bind (tidy_perform (aside_findFirst _)) fun existing => ?_
      cases existing with
      | some existing => exact tidy_done _
      | none =>
          intro h hh
          rw [along_bind]
          refine checkout_leaves hh (fun e h' hh' => hh') fun t h₁ hleft₁ => ?_
          rw [then_ok, along_bind]
          refine linkBuyer_leaves hleft₁ (fun e h' hh' => hh') fun h₂ hleft₂ => ?_
          rw [then_ok, along_perform_bind]
          refine ⟨trivial, fun e _ => left_error e _ fun _ => Op.noConfusion, fun uuid _ => ?_⟩
          rw [along_perform_bind]
          refine ⟨trivial, fun e _ => left_error e _ fun _ => Op.noConfusion, fun code _ => ?_⟩
          rw [along_perform_bind]
          refine ⟨trivial, fun e _ => left_error e _ fun _ => Op.noConfusion, fun account _ => ?_⟩
          have hleft₃ := ((left_served (a := account) (q := .createDedicatedAccount code) rfl).trans
            (left_served (a := code) (q := .createCustomer email) rfl)).trans
            ((left_served (a := uuid) (q := .randomUUID) rfl).trans hleft₂)
          rw [along_perform_bind]
          refine ⟨hleft₃, fun e _ => left_error e _ fun _ => Op.noConfusion, fun payment _ => ?_⟩
          simp [task_cons, halfway]

/-! ## Every call -/

/-- A call that neither checks out nor verifies. -/
theorem tidy_of_does {p : Program α} (hchecks : ∀ buyerId, ¬ c.ChecksOut buyerId)
    (hverifies : ¬ c.Verifies)
    (happlies : ∀ input, c.Applies input → input.event ≠ .buyerInitiateCheckout)
    (hp : p.Uses c.Does) : Tidy p :=
  (hp.mono fun _ hop => aside_of_does hchecks hverifies happlies hop).tidy

theorem Prog.Tidy.map {β : Type} {f : α → β} {p : Program α} (hp : Tidy p) : Tidy (f <$> p) := by
  rw [Prog.map_eq]
  exact Prog.Tidy.bind hp fun _ => tidy_done _

theorem handlePaystackEvent_tidy (rawBody signature : String) :
    Tidy (handlePaystackEvent env rawBody signature) := by
  have aside {op : Op} (hop : op = .now ∨ (∃ d, op = .webhookEventCreate d) ∨
      ∃ id r, op = .webhookEventUpdate id r) : op.Aside := by
    rcases hop with rfl | ⟨d, rfl⟩ | ⟨id, r, rfl⟩ <;>
      exact ⟨fun a => by cases a <;> rfl, fun _ _ => trivial⟩
  have hpaid (key code : String) : Tidy (markPaid key code) :=
    tidy_of_does (c := .markPaid key code) (fun _ h => h) (fun h => h)
      (fun input (hin : input.event = _) => by rw [hin]; exact TransactionEvent.noConfusion)
      (markPaid_does (c := .markPaid key code) (fun _ h => h) key code)
  have hfailed (key : String) (status : FailedStatus) (reason : String) :
      Tidy (markFailed key status reason) :=
    tidy_of_does (c := .markFailed key status reason) (fun _ h => h) (fun h => h)
      (fun _ h => h.elim) (markFailed_does key status reason)
  have hroute : ∀ payload, Tidy (route payload) := by
    intro payload
    unfold route
    dsimp only
    split
    · split
      · exact handleChargeSuccess_tidy _ _ _
      · exact tidy_done _
    · split
      · split
        · split
          · exact Prog.Tidy.bind (attachDedicatedAccount_tidy _ _ _ _) fun _ => tidy_done _
          · exact tidy_done _
        · exact tidy_done _
      · split
        · split
          · exact Prog.Tidy.bind (hpaid _ _) fun _ => tidy_done _
          · exact tidy_done _
        · split
          · split
            · exact tidy_done _
            · exact Prog.Tidy.bind (hfailed _ _ _) fun _ => tidy_done _
          · exact tidy_done _
  unfold handlePaystackEvent
  split
  · exact tidy_done _
  · split
    · exact tidy_done _
    · refine Prog.Tidy.bind ?_ fun stale => ?_
      · unfold isStale
        split
        · exact tidy_done _
        · exact Prog.Tidy.bind (tidy_perform (aside (.inl rfl))) fun _ => tidy_done _
      · split
        · exact tidy_done _
        · refine Prog.Tidy.bind (Prog.Tidy.tryCatch
            (Prog.Tidy.bind (tidy_perform (aside (.inr (.inl ⟨_, rfl⟩)))) fun _ => tidy_done _)
            fun err => ?_) fun recorded => ?_
          · split <;> exact tidy_done _
          · cases recorded with
            | none => exact tidy_done _
            | some webhookEventId =>
                have hupdate (r : String) := tidy_perform (P := Possible)
                  (aside (.inr (.inr ⟨webhookEventId, r, rfl⟩)))
                refine Prog.Tidy.tryCatch (Prog.Tidy.bind (hroute _) fun handled => ?_)
                  fun err => ?_
                · exact Prog.Tidy.bind (hupdate _) fun _ => tidy_done _
                · exact Prog.Tidy.bind (hupdate _) fun _ => tidy_done _

/-- **No call ends with anything left to do.** -/
theorem code_tidy {w : World} (hadm : admits env c w = true) : Tidy (code env c) := by
  have hother (hchecks : ∀ buyerId, ¬ c.ChecksOut buyerId) (hverifies : ¬ c.Verifies)
      (happlies : ∀ input, c.Applies input → input.event ≠ .buyerInitiateCheckout) :
      Tidy (code env c) := tidy_of_does hchecks hverifies happlies (code_does env c)
  cases c with
  | initializeCollection input => exact Prog.Tidy.map (initializeCollection_tidy input)
  | initializeVirtualAccount t b e => exact Prog.Tidy.map (initializeVirtualAccount_tidy t b e)
  | verify reference => exact Prog.Tidy.map (verifyAndProtect_tidy _ _)
  | reconcilePending => exact Prog.Tidy.map reconcilePending_tidy
  | paystackWebhook rawBody signature => exact Prog.Tidy.map (handlePaystackEvent_tidy _ _)
  | drive input =>
      refine hother (fun _ h => h) (fun h => h) fun input' hin hev => ?_
      have hdriven : drivenElsewhere input.event = true := hadm
      obtain rfl : input' = input := hin
      rw [hev] at hdriven
      cases hdriven
  | markPaid key code =>
      exact hother (fun _ h => h) (fun h => h)
        fun input (hin : input.event = _) => by rw [hin]; exact TransactionEvent.noConfusion
  | retryTransfer key adminId =>
      exact hother (fun _ h => h) (fun h => h)
        fun input (hin : input.event = _) => by rw [hin]; exact TransactionEvent.noConfusion
  | raiseDispute i =>
      refine hother (fun _ h => h) (fun h => h) ?_
      rintro input rfl hev
      cases hev
  | resolveDispute i =>
      refine hother (fun _ h => h) (fun h => h) ?_
      rintro input ⟨dispute, otherOpen, rfl⟩ hev
      obtain ⟨id, by', outcome, resolution⟩ := i
      cases outcome <;> cases hev
  | confirm id buyerId reason =>
      refine hother (fun _ h => h) (fun h => h) ?_
      rintro input rfl hev
      cases hev
  | scanAndRelease =>
      refine hother (fun _ h => h) (fun h => h) ?_
      rintro input ⟨id, rfl⟩ hev
      cases hev
  | voidInvoice sellerId id =>
      refine hother (fun _ h => h) (fun h => h) ?_
      rintro input ⟨id', invoice, rfl⟩ hev
      cases hev
  | sendInvoice sellerId id =>
      refine hother (fun _ h => h) (fun h => h) ?_
      rintro input ⟨id', rfl⟩ hev
      cases hev
  | _ => exact hother (fun _ h => h) (fun h => h) fun _ h => h.elim

end Meduman
