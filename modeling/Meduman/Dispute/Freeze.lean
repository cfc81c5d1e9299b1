import Meduman.Core.Does
import Meduman.Core.Outline

/-!
# An open dispute freezes release

Every way into `RELEASE_PROCESSING` and every transfer is decided on a check made before: the machine
on the freezing disputes loaded with the transaction, a resolution on the other freezing disputes, a
payout on a count of its own, which leaves out disputes under review.

* `Frozen` : the transaction has a freezing dispute, besides the one being resolved
* `Call.checks` : the operation on which a call decides
* `payoutsSee` : the payouts' check would find what the others' finds
* **`release_frozen`** : every run from every world
-/

set_option autoImplicit false

namespace Meduman

open Effect

/-! ## The freeze -/

/-- The transaction has a dispute that is `OPEN` or `UNDER_REVIEW`, other than `except`. -/
def Frozen (w : World) (id : Uuid) (except : Option Uuid) : Prop :=
  ∃ d ∈ w.disputes, d.transactionId = id ∧ d.status ∈ freezingDisputeStatuses ∧ except ≠ some d.id

/-- The dispute a call resolves. -/
def Call.resolving : Call → Option Uuid
  | .resolveDispute input => some input.disputeId
  | _ => none

/-- The operation on which a call decides whether it may release. -/
def Call.checks (c : Call) (op : Op) : Bool :=
  match c, op with
  | .resolveDispute _, .disputeCountOthers .. => true
  | .resolveDispute _, _ => false
  | .executeRelease _, .disputeCount .. | .processRelease _, .disputeCount ..
  | .retryTransfer .., .disputeCount .. => true
  | .executeRelease _, _ | .processRelease _, _ | .retryTransfer .., _ => false
  | _, .transactionFindWithDisputes .. => true
  | _, _ => false

/-- The transfer a call asks for is one of this transaction. -/
def Call.TransfersFor (c : Call) (i : InitiateTransferInput) (id : Uuid) : Prop :=
  match c with
  | .executeRelease t | .processRelease t => t = id
  | _ => i.reason = transferReason id

/-- The operation puts the transaction into `RELEASE_PROCESSING` or asks for a transfer of it. -/
def Releases (c : Call) (op : Op) (id : Uuid) : Prop :=
  match op with
  | .commitTransition d => d.transactionId = id ∧ d.newState = .releaseProcessing
  | .initiateTransfer i => c.TransfersFor i id
  | _ => False

/-! ## What a release promises -/

variable {env : Env} {c : Call} {h : Hist} {w : World} {id : Uuid}

/-- The answer of a check lets the transaction be released. -/
def Clears (c : Call) (e : Event Op.Ans Err) (id : Uuid) : Prop :=
  match e with
  | ⟨.transactionFindWithDisputes t statuses, .ok (some (_, disputes))⟩ =>
      t = id ∧ statuses = freezingDisputeStatuses ∧ disputes = []
  | ⟨.disputeCount t status, .ok n⟩ => t = id ∧ status = .open ∧ n = 0
  | ⟨.disputeCountOthers t statuses except, .ok n⟩ =>
      t = id ∧ statuses = openDisputeStatuses ∧ c.resolving = some except ∧ n = 0
  | _ => False

/-- The last check of the call lets the transaction be released. -/
def Cleared (c : Call) (h : Hist) (id : Uuid) : Prop :=
  ∃ e, h.find? (fun e => c.checks e.op) = some e ∧ Clears c e id

theorem Cleared.cons {e : Event Op.Ans Err} (hc : Cleared c h id) (he : c.checks e.op = false) :
    Cleared c (e :: h) id := by
  obtain ⟨e', hfind, hclears⟩ := hc
  exact ⟨e', by rw [List.find?_cons, he]; exact hfind, hclears⟩

theorem cleared_now {e : Event Op.Ans Err} (he : c.checks e.op = true) (hc : Clears c e id) :
    Cleared c (e :: h) id := ⟨e, by rw [List.find?_cons, he], hc⟩

/-- The payouts a call saw under one key are of one transaction. -/
def SamePayouts (h : Hist) : Prop := ∀ p q, PayoutShown h p → PayoutShown h q →
  p.idempotencyKey = q.idempotencyKey → p.transactionId = q.transactionId

/-- **The promise.** -/
def ChecksFirst (c : Call) (h : Hist) (op : Op) : Prop :=
  SamePayouts h → ∀ id, Releases c op id → Cleared c h id

/-- The operation releases nothing. -/
def Op.holdsBack : Op → Prop
  | .commitTransition d => d.newState ≠ .releaseProcessing
  | .initiateTransfer _ => False
  | _ => True

theorem checksFirst_of_holdsBack {op : Op} (hop : op.holdsBack) (h : Hist) : ChecksFirst c h op := by
  intro _ id hr
  cases op with
  | commitTransition d => exact absurd hr.2 hop
  | initiateTransfer i => exact hop.elim
  | _ => exact hr.elim

/-- The events that enter `RELEASE_PROCESSING`. -/
def releasing : TransactionEvent → Bool
  | .buyerConfirm | .autoConfirm | .resolveDisputeForSeller | .payoutRetry => true
  | _ => false

theorem edges_releasing : ∀ e ∈ edges, e.2.2 = .releaseProcessing → releasing e.2.1 = true := by
  decide

/-- What the machine accepts into `RELEASE_PROCESSING` has no open dispute in its context. -/
theorem undisputed_of_transition {s : TransactionStatus} {event : TransactionEvent}
    {context : TransactionContext} (hok : transition s event context = .ok .releaseProcessing) :
    context.hasOpenDispute = false := by
  cases s <;> cases event <;> simp only [transition] at hok <;> try cases hok
  case paymentPending.paymentVerified source =>
      split at hok <;> cases hok
  case confirmationPending.autoConfirm => exact (autoConfirm_ok hok).2
  all_goals exact (enterReleaseProcessing_ok hok).2

/-- The calls that release: they confirm, resolve or disburse. -/
def Call.lets : Call → Bool
  | .resolveDispute _ | .confirm .. | .scanAndRelease => true
  | .executeRelease _ | .processRelease _ | .retryTransfer .. => true
  | _ => false

theorem holdsBack_of_event {input : ApplyTransitionInput} {tx : Transaction}
    {context : TransactionContext} {nextState : TransactionStatus}
    (hevent : releasing input.event = false)
    (hok : transition tx.status input.event context = .ok nextState) :
    (Op.commitTransition (input.write tx nextState)).holdsBack := by
  intro hnext
  have hentered : releasing input.event = true := edges_releasing _ (transition_ok hok) hnext
  rw [hevent] at hentered
  cases hentered

theorem holdsBack_of_does {op : Op} (hadm : platformAdmits env c w = true) (hc : c.lets = false)
    (hop : c.Does op) : op.holdsBack := by
  cases op with
  | commitTransition d =>
      obtain ⟨input, tx, context, nextState, happ, hok, rfl⟩ := hop
      have hevent : releasing input.event = false := by
        cases c with
        | drive i =>
            obtain rfl : input = i := happ
            have hseller : sellerEvent input.event = true := hadm
            revert hseller
            cases input.event <;> simp [sellerEvent, releasing]
        | initializeCollection i => obtain ⟨_, rfl⟩ := happ; rfl
        | initializeVirtualAccount _ _ _ => obtain ⟨_, rfl⟩ := happ; rfl
        | verify _ => obtain ⟨_, _, _, rfl⟩ := happ; rfl
        | reconcilePending => obtain ⟨_, _, _, rfl⟩ := happ; rfl
        | paystackWebhook _ _ =>
            rcases happ with ⟨_, _, _, rfl⟩ | heq
            · rfl
            · rw [heq]; rfl
        | markPaid _ _ => rw [show input.event = .payoutSucceeded from happ]; rfl
        | raiseDispute i => obtain rfl : input = i.event := happ; rfl
        | voidInvoice _ _ => obtain ⟨_, _, rfl⟩ := happ; rfl
        | sendInvoice _ _ => obtain ⟨_, rfl⟩ := happ; rfl
        | resolveDispute _ | confirm _ _ _ | scanAndRelease | retryTransfer _ _ => cases hc
        | _ => exact happ.elim
      exact holdsBack_of_event hevent hok
  | initiateTransfer i =>
      cases c with
      | executeRelease _ | processRelease _ | retryTransfer _ _ => cases hc
      | _ => exact hop.elim
  | _ => trivial

/-! ### Transitions -/

/-- A transition decided on the disputes loaded with the transaction. -/
theorem apply_checksFirst {input : ApplyTransitionInput} {Q : Except Err Transaction → Hist → Prop}
    (hchecks : c.checks (.transactionFindWithDisputes input.transactionId
      freezingDisputeStatuses) = true) (hown : input.hasOpenDispute = none) (hQ : ∀ r h', Q r h') :
    (apply input).Along Possible (ChecksFirst c) Q h := by
  refine apply_traces (checksFirst_of_holdsBack (by trivial) h) (fun tx disputes nextState hok => ?_)
    (fun h _ => checksFirst_of_holdsBack (by trivial) h) (fun _ _ _ => hQ _ _) fun _ _ _ _ _ _ _ _ =>
      hQ _ _
  rintro - id ⟨rfl, hnext⟩
  have hnext' : nextState = .releaseProcessing := hnext
  rw [hnext'] at hok
  have hno := undisputed_of_transition hok
  simp only [ApplyTransitionInput.context, hown, Option.getD_none, Bool.not_eq_false',
    List.isEmpty_iff] at hno
  exact cleared_now hchecks ⟨rfl, rfl, hno⟩

theorem confirm_checksFirst (id buyerId : Uuid) (reason : Option String)
    {Q : Except Err Transaction → Hist → Prop} (hQ : ∀ r h', Q r h') :
    (confirm id buyerId reason).Along Possible (ChecksFirst (.confirm id buyerId reason)) Q h := by
  unfold confirm getById
  rw [along_bind, along_perform_bind]
  refine ⟨checksFirst_of_holdsBack (by trivial) h, fun e _ => hQ _ _, fun tx _ => ?_⟩
  cases tx with
  | none => exact hQ _ _
  | some tx =>
      dsimp only
      rw [Prog.pure_eq, along_done, then_ok]
      split
      · exact hQ _ _
      · rw [along_bind]
        refine apply_checksFirst rfl rfl fun r h' => ?_
        cases r with
        | error e => exact hQ _ _
        | ok updated =>
            rw [then_ok, along_perform_bind]
            exact ⟨checksFirst_of_holdsBack (by trivial) h', fun _ _ => hQ _ _, fun _ _ => hQ _ _⟩

theorem scanEach_checksFirst (windowMs now : Int) (candidates : List (Transaction × Option Int))
    (released : Nat) {Q : Except Err Nat → Hist → Prop} (hQ : ∀ r h', Q r h') :
    (scanEach windowMs now candidates released).Along Possible (ChecksFirst .scanAndRelease) Q
      h := by
  induction candidates generalizing released h with
  | nil => exact hQ _ _
  | cons candidate rest ih =>
      obtain ⟨tx, _ | enteredAt⟩ := candidate
      · exact ih released
      · unfold scanEach
        split
        · exact ih released
        · rw [along_bind, along_tryCatch, along_bind]
          refine apply_checksFirst rfl rfl fun r h' => ?_
          cases r with
          | error e => exact ih _
          | ok updated =>
              rw [then_ok, along_perform_bind]
              exact ⟨checksFirst_of_holdsBack (by trivial) h', fun _ _ => ih _, fun _ _ => ih _⟩

theorem found_dispute {o : Outcome} {u w : World} {d : Dispute}
    (he : exec (.disputeFindUnique id) o u = some (.ok (some d), w)) :
    d ∈ u.disputes ∧ d.id = id := by
  rcases exec_cases he with ⟨-, e, herr⟩ | ⟨s, -, -, ha | ⟨e, herr⟩⟩
  · cases herr
  · have hfind : u.disputes.find (fun d => d.id == id) = some d := (Except.ok.inj ha).symm
    simpa using Table.find_spec hfind
  · cases herr

/-- The dispute found under an identifier has it. -/
theorem disputeId_of_possible {d : Dispute}
    (h : Possible ⟨.disputeFindUnique id, .ok (some d)⟩) : d.id = id := by
  obtain ⟨o, u, w, he⟩ := h
  exact (found_dispute he).2

theorem resolve_checksFirst (input : ResolveDisputeInput) {Q : Except Err Dispute → Hist → Prop}
    (hQ : ∀ r h', Q r h') :
    (resolve input).Along Possible (ChecksFirst (.resolveDispute input)) Q h := by
  unfold resolve
  rw [along_perform_bind]
  refine ⟨checksFirst_of_holdsBack (by trivial) h, fun e _ => hQ _ _, fun dispute hpossible => ?_⟩
  cases dispute with
  | none => exact hQ _ _
  | some dispute =>
      have hid := disputeId_of_possible hpossible
      dsimp only
      split
      · exact hQ _ _
      · rw [along_perform_bind]
        refine ⟨checksFirst_of_holdsBack (by trivial) _, fun e _ => hQ _ _, fun otherOpen _ => ?_⟩
        rw [along_bind]
        refine apply_traces (checksFirst_of_holdsBack (by trivial) _) ?_
          (fun h _ => checksFirst_of_holdsBack (by trivial) h) (fun _ _ _ => hQ _ _) ?_
        · -- decided on the count, not on the disputes loaded with the transaction
          rintro tx disputes nextState hok - id ⟨rfl, hnext⟩
          have hnext' : nextState = .releaseProcessing := hnext
          rw [hnext'] at hok
          have hno := undisputed_of_transition hok
          have hzero : otherOpen = 0 := by
            simpa [ApplyTransitionInput.context, ResolveDisputeInput.event] using hno
          refine (cleared_now rfl ?_).cons rfl
          exact ⟨rfl, rfl, by rw [hid]; rfl, hzero⟩
        · intro tx disputes nextState a l _ _ _
          rw [then_ok, along_bind]
          have hwrite : ∀ h' : Hist, Prog.Along Possible (ChecksFirst (.resolveDispute input)) Q
              (await (.disputeUpdate dispute.id
                { status := input.outcome.status, resolvedBy := input.resolvedBy,
                  resolution := input.resolution })) h' := fun h' =>
            (along_perform _ _).mpr
              ⟨checksFirst_of_holdsBack (by trivial) h', fun _ _ => hQ _ _, fun _ _ => hQ _ _⟩
          unfold enqueueResolved
          split
          · exact (along_perform _ _).mpr ⟨checksFirst_of_holdsBack (by trivial) _, fun _ _ => hQ _ _,
              fun _ _ => hwrite _⟩
          · exact hwrite _

/-! ### Payouts -/

theorem sendTransfer_checksFirst {payout : Payout} {reference : Option String}
    {Q : Except Err Payout → Hist → Prop}
    (hsend : ∀ (i : InitiateTransferInput) (e : Event Op.Ans Err), e.op = .sellerProfileFindUnique
      payout.sellerId → i.reason = transferReason payout.transactionId →
        ChecksFirst c (e :: h) (.initiateTransfer i)) (hQ : ∀ r h', Q r h') :
    (sendTransfer payout reference).Along Possible (ChecksFirst c) Q h := by
  have hquiet : ∀ {α : Type} {p : Program α} {Q : Except Err α → Hist → Prop} {h : Hist},
      p.Uses Op.holdsBack → (∀ r h', Q r h') → p.Along Possible (ChecksFirst c) Q h :=
    fun hp hQ => hp.along (fun h _ hop => checksFirst_of_holdsBack hop h) fun _ _ _ => hQ _ _
  have hrecord : ∀ code r, (recordTransferSent payout code r).Uses Op.holdsBack := fun code r =>
    uses_bind (uses_perform trivial) fun _ => uses_bind (uses_perform trivial) fun _ => trivial
  unfold sendTransfer
  split
  · exact hQ _ _
  · rw [along_perform_bind]
    refine ⟨checksFirst_of_holdsBack (by trivial) h, fun e _ => hQ _ _, fun seller _ => ?_⟩
    split
    · exact hQ _ _
    · rw [along_tryCatch, along_perform_bind]
      refine ⟨hsend _ _ rfl rfl, fun e _ => ?_, fun transfer _ => ?_⟩
      · refine hquiet (uses_bind ?_ fun existing => ?_) hQ
        · exact uses_tryCatch (uses_bind (uses_perform trivial) fun _ => trivial) fun _ => trivial
        · cases existing with
          | some existing => exact hrecord _ _
          | none =>
              exact uses_bind (uses_perform trivial) fun _ =>
                uses_bind (uses_perform trivial) fun _ => trivial
      · refine hquiet (hrecord _ _) fun r h' => ?_
        cases r with
        | ok updated => exact hQ _ _
        | error e =>
            refine hquiet (uses_bind ?_ fun existing => ?_) hQ
            · exact uses_tryCatch (uses_bind (uses_perform trivial) fun _ => trivial)
                fun _ => trivial
            · cases existing with
              | some existing => exact hrecord _ _
              | none =>
                  exact uses_bind (uses_perform trivial) fun _ =>
                    uses_bind (uses_perform trivial) fun _ => trivial

theorem Cleared.append {l : Hist} (hc : Cleared c h id)
    (hl : ∀ e ∈ l, c.checks e.op = false) : Cleared c (l ++ h) id := by
  induction l with
  | nil => exact hc
  | cons e l ih =>
      exact (ih fun e he => hl e (List.mem_cons_of_mem _ he)).cons (hl e List.mem_cons_self)

/-- The release of a transaction sends nothing unless its count was zero. -/
theorem executeRelease_checksFirst {t : Uuid} (hc : c = .executeRelease t ∨ c = .processRelease t)
    {Q : Except Err Payout → Hist → Prop} (hQ : ∀ r h', Q r h') :
    (executeRelease t).Along Possible (ChecksFirst c) Q h := by
  have hcount : ∀ id status, c.checks (.disputeCount id status) = true := by
    rcases hc with rfl | rfl <;> exact fun _ _ => rfl
  have hother : ∀ op : Op, (∀ id status, op ≠ .disputeCount id status) → c.checks op = false := by
    intro op hop
    rcases hc with rfl | rfl <;>
      cases op <;> first | rfl | exact absurd rfl (hop _ _)
  have hfor : ∀ i id, c.TransfersFor i id → t = id := by
    rcases hc with rfl | rfl <;> exact fun _ _ h => h
  unfold executeRelease
  rw [along_perform_bind]
  refine ⟨checksFirst_of_holdsBack (by trivial) h, fun e _ => hQ _ _, fun tx hpossible => ?_⟩
  cases tx with
  | none => exact hQ _ _
  | some tx =>
      obtain ⟨u, w, -, hsel⟩ := hpossible.answered
      have hid : tx.id = t := by simpa [TransactionKey.selects] using hsel
      dsimp only
      split
      · exact hQ _ _
      · rw [along_perform_bind]
        refine ⟨checksFirst_of_holdsBack (by trivial) _, fun e _ => hQ _ _, fun n _ => ?_⟩
        split
        · exact hQ _ _
        · rename_i hzero
          have hcleared : Cleared c (⟨.disputeCount tx.id .open, .ok n⟩ ::
              (⟨.transactionFindUnique (.id t), .ok (some tx)⟩ :: h)) t :=
            cleared_now (hcount _ _) ⟨hid, rfl, Nat.eq_zero_of_not_pos hzero⟩
          rw [along_bind]
          have hauthorize : (authorizePayout tx).Uses fun op =>
              op.holdsBack ∧ ∀ id status, op ≠ .disputeCount id status := by
            refine uses_tryCatch (uses_perform ⟨trivial, by simp⟩) fun err => ?_
            split
            · refine uses_bind (uses_perform ⟨trivial, by simp⟩) fun existing => ?_
              cases existing <;> trivial
            · trivial
          refine hauthorize.along (fun h op hop => checksFirst_of_holdsBack hop.1 h)
            fun r l hl => ?_
          have hcleared' := hcleared.append fun e he => hother e.op (hl e he).2
          cases r with
          | error e => exact hQ _ _
          | ok payout =>
              refine sendTransfer_checksFirst (fun i e he _ _ id hr => ?_) hQ
              rw [← hfor i id hr]
              exact hcleared'.cons (hother _ (by simp [he]))

theorem processRelease_checksFirst (t : Uuid) {Q : Except Err Unit → Hist → Prop}
    (hQ : ∀ r h', Q r h') :
    (processRelease t).Along Possible (ChecksFirst (.processRelease t)) Q h := by
  unfold processRelease
  rw [along_perform_bind]
  refine ⟨checksFirst_of_holdsBack (by trivial) h, fun e _ => hQ _ _, fun start _ => ?_⟩
  rw [along_bind, along_tryCatch, along_bind]
  have hend : ∀ (executed : Bool) (h' : Hist), Prog.Along Possible
      (ChecksFirst (.processRelease t)) Q (if executed then await (.completeReleaseJob t start)
        else await (.failReleaseJob t start)) h' := by
    intro executed h'
    split
    · exact (along_perform _ _).mpr
        ⟨checksFirst_of_holdsBack (by trivial) h', fun _ _ => hQ _ _, fun _ _ => hQ _ _⟩
    · exact (along_perform _ _).mpr
        ⟨checksFirst_of_holdsBack (by trivial) h', fun _ _ => hQ _ _, fun _ _ => hQ _ _⟩
  refine executeRelease_checksFirst (.inr rfl) fun r h' => ?_
  cases r with
  | ok payout => exact hend true h'
  | error e => exact hend false h'

theorem apply_holdsBack {input : ApplyTransitionInput} (hevent : releasing input.event = false) :
    (apply input).Uses Op.holdsBack := by
  have hdrive : (Call.drive input).Applies input := rfl
  refine (apply_does hdrive).mono fun op hop => ?_
  cases op with
  | commitTransition d =>
      obtain ⟨input', tx, context, nextState, rfl, hok, rfl⟩ := hop
      exact holdsBack_of_event hevent hok
  | initiateTransfer i => exact hop.elim
  | _ => trivial

theorem markPaid_holdsBack (key code : String) : (markPaid key code).Uses Op.holdsBack := by
  refine uses_bind (uses_perform trivial) fun payout => ?_
  cases payout with
  | none => trivial
  | some payout =>
      dsimp only
      split
      · trivial
      · refine uses_bind (uses_perform trivial) fun updated => ?_
        exact uses_bind (apply_holdsBack rfl) fun _ => trivial

/-- A retry sends nothing unless its count was zero. -/
theorem retryTransfer_checksFirst (key adminId : String) {Q : Except Err Payout → Hist → Prop}
    (hQ : ∀ r h', Q r h') :
    (retryTransfer key adminId).Along Possible (ChecksFirst (.retryTransfer key adminId)) Q
      h := by
  unfold retryTransfer
  rw [along_perform_bind]
  refine ⟨checksFirst_of_holdsBack (by trivial) h, fun e _ => hQ _ _, fun payout hpossible => ?_⟩
  cases payout with
  | none => exact hQ _ _
  | some payout =>
      obtain ⟨u, w, -, hkey⟩ := hpossible.answered
      dsimp only
      split
      · exact hQ _ _
      · split
        · exact hQ _ _
        · rw [along_perform_bind]
          refine ⟨checksFirst_of_holdsBack (by trivial) _, fun e _ => hQ _ _, fun n _ => ?_⟩
          split
          · exact hQ _ _
          · rename_i hzero
            have hcleared : Cleared (.retryTransfer key adminId)
                (⟨.disputeCount payout.transactionId .open, .ok n⟩ ::
                  (⟨.payoutFindUnique key, .ok (some payout)⟩ :: h)) payout.transactionId :=
              cleared_now rfl ⟨rfl, rfl, Nat.eq_zero_of_not_pos hzero⟩
            have hshown : PayoutShown (⟨.disputeCount payout.transactionId .open, .ok n⟩ ::
                (⟨.payoutFindUnique key, .ok (some payout)⟩ :: h)) payout :=
              ⟨_, List.mem_cons_of_mem _ List.mem_cons_self, rfl⟩
            rw [along_bind]
            have hlookup : ∀ r, (verifyTransfer r).Uses fun op =>
                op.holdsBack ∧ (Call.retryTransfer key adminId).checks op = false := fun r =>
              uses_tryCatch (uses_bind (uses_perform ⟨trivial, rfl⟩) fun _ => trivial)
                fun _ => trivial
            refine (hlookup _).along (fun h op hop => checksFirst_of_holdsBack hop.1 h)
              fun r l hl => ?_
            have hcleared' := hcleared.append fun e he => (hl e he).2
            have hshown' := hshown.mono (List.subset_append_right l _)
            cases r with
            | error e => exact hQ _ _
            | ok prior =>
                rw [then_ok]
                split
                · rw [along_perform_bind]
                  refine ⟨checksFirst_of_holdsBack (by trivial) _, fun e _ => hQ _ _, fun _ _ => ?_⟩
                  exact (markPaid_holdsBack _ _).along
                    (fun h op hop => checksFirst_of_holdsBack hop h) fun _ _ _ => hQ _ _
                · rw [along_perform_bind]
                  refine ⟨checksFirst_of_holdsBack (by trivial) _, fun e _ => hQ _ _,
                    fun _ _ => ?_⟩
                  rw [along_perform_bind]
                  refine ⟨checksFirst_of_holdsBack (by trivial) _, fun e _ => hQ _ _,
                    fun reset hpossible => ?_⟩
                  obtain ⟨u', w', -, p₀, -, hkey₀, hreset⟩ := hpossible.answered
                  refine sendTransfer_checksFirst (fun i e he hreason hsame id hr => ?_) hQ
                  -- the row it reset is of the transaction it checked
                  have htx : payout.transactionId = reset.transactionId := by
                    refine hsame payout reset ?_ ?_ ?_
                    · exact hshown'.mono fun e he => List.mem_cons_of_mem _
                        (List.mem_cons_of_mem _ (List.mem_cons_of_mem _ he))
                    · exact ⟨_, List.mem_cons_of_mem _ List.mem_cons_self, rfl⟩
                    · rw [hkey, hreset, ← hkey₀]
                      rfl
                  have hid : reset.transactionId = id :=
                    transferReason_injective (hreason.symm.trans hr)
                  rw [← hid, ← htx]
                  exact ((hcleared'.cons rfl).cons rfl).cons (by rw [he]; rfl)

/-- **Every call checks first.** -/
theorem code_checksFirst (hadm : platformAdmits env c w = true) :
    (code env c).Along Possible (ChecksFirst c) (fun _ _ => True) [] := by
  cases hlets : c.lets with
  | false =>
      exact (code_does env c).along
        (fun h op hop => checksFirst_of_holdsBack (holdsBack_of_does hadm hlets hop) h)
        fun _ _ _ => trivial
  | true =>
      have hmap : ∀ {α : Type} {f : α → Reply} {p : Program α},
          p.Along Possible (ChecksFirst c) (fun _ _ => True) [] →
            (f <$> p).Along Possible (ChecksFirst c) (fun _ _ => True) [] := by
        intro α f p hp
        rw [Prog.map_eq, along_bind]
        exact hp.mono fun r h _ => by cases r <;> trivial
      cases c with
      | resolveDispute input => exact hmap (resolve_checksFirst input fun _ _ => trivial)
      | confirm id buyerId reason =>
          exact hmap (confirm_checksFirst id buyerId reason fun _ _ => trivial)
      | scanAndRelease =>
          refine hmap ?_
          unfold scanAndRelease
          rw [along_perform_bind]
          refine ⟨checksFirst_of_holdsBack (by trivial) _, fun _ _ => trivial, fun now _ => ?_⟩
          rw [along_perform_bind]
          refine ⟨checksFirst_of_holdsBack (by trivial) _, fun _ _ => trivial, fun _ _ => ?_⟩
          exact scanEach_checksFirst _ _ _ _ fun _ _ => trivial
      | executeRelease t => exact hmap (executeRelease_checksFirst (.inl rfl) fun _ _ => trivial)
      | processRelease t => exact hmap (processRelease_checksFirst t fun _ _ => trivial)
      | retryTransfer key adminId =>
          exact hmap (retryTransfer_checksFirst key adminId fun _ _ => trivial)
      | _ => cases hlets

/-! ## Payout rows -/

/-- Payouts keep their key and their transaction. -/
def KeepsPayouts (u w : World) : Prop := ∀ p ∈ u.payouts, ∃ p' ∈ w.payouts,
  p'.idempotencyKey = p.idempotencyKey ∧ p'.transactionId = p.transactionId

/-- The payouts a call saw are still there. -/
def PayoutsKnown (h : Hist) (w : World) : Prop := ∀ p, PayoutShown h p → ∃ p' ∈ w.payouts,
  p'.idempotencyKey = p.idempotencyKey ∧ p'.transactionId = p.transactionId

variable {u : World}

theorem keepsPayouts_change {op : Op} (hc : Change op u w) : KeepsPayouts u w := by
  cases hc with
  | frame same => exact fun p hp => ⟨p, same.payouts ▸ hp, rfl, rfl⟩
  | commit found write payments payouts => exact fun p hp => ⟨p, payouts ▸ hp, rfl, rfl⟩
  | payoutCreate write => exact Table.exists_create write fun _ => ⟨rfl, rfl⟩
  | payoutUpdate write =>
      exact Table.exists_update write (fun _ => ⟨rfl, rfl⟩) fun _ _ _ => ⟨rfl, rfl⟩
  | _ => exact fun p hp => ⟨p, hp, rfl, rfl⟩

theorem keepsPayouts_drift {m : Move} (hm : drift m u = some w) : KeepsPayouts u w := by
  cases m with
  | merge source target =>
      obtain ⟨_, payouts, _, _, -, write, -, -, rfl⟩ := drift_merge hm
      exact Table.exists_update write (fun _ => ⟨rfl, rfl⟩) fun _ _ _ => ⟨rfl, rfl⟩
  | charge reference =>
      simp only [drift] at hm
      split at hm <;> cases hm
      exact fun p hp => ⟨p, hp, rfl, rfl⟩
  | _ => cases hm; exact fun p hp => ⟨p, hp, rfl, rfl⟩

theorem PayoutsKnown.mono (hk : PayoutsKnown h u) (hkeeps : KeepsPayouts u w) :
    PayoutsKnown h w := by
  intro p hp
  obtain ⟨p', hp', hkey, htx⟩ := hk p hp
  obtain ⟨p'', hp'', hkey', htx'⟩ := hkeeps p' hp'
  exact ⟨p'', hp'', hkey'.trans hkey, htx'.trans htx⟩

theorem payoutsKnown_cons {op : Op} {o : Outcome} {a : Except Err op.Ans} (hk : PayoutsKnown h u)
    (he : exec op o u = some (a, w)) : PayoutsKnown (⟨op, a⟩ :: h) w := by
  have hkeeps := keepsPayouts_change (exec_change he)
  rintro p ⟨e, hmem, hof⟩
  rcases List.mem_cons.mp hmem with rfl | hmem
  · unfold payoutOf at hof
    split at hof
    · rename_i d p' heq
      cases heq
      cases hof
      exact ⟨p, (exec_answered he).1, rfl, rfl⟩
    · rename_i key p' heq
      cases heq
      cases hof
      exact hkeeps p (exec_answered he).1
    · rename_i key d p' heq
      cases heq
      cases hof
      exact ⟨p, (exec_answered he).1, rfl, rfl⟩
    · cases hof
  · exact hk.mono hkeeps p ⟨e, hmem, hof⟩

theorem PayoutsKnown.same (hk : PayoutsKnown h w) : SamePayouts h := by
  intro p q hp hq hkey
  obtain ⟨p', hp', hkp, htp⟩ := hk p hp
  obtain ⟨q', hq', hkq, htq⟩ := hk q hq
  have heq : p' = q' := Table.eq_of_clash hp' hq' (by
    simp [Constrained.clash, hkp, hkq, hkey])
  rw [← htp, heq, htq]

/-! ## Every run -/

/-- The platform, where disputes may also change elsewhere. -/
abbrev disputable (env : Env) : Service Op.Ans Err := (core env).within (platformAdmits env) drift

/-- The outline of the checks. -/
def checked (env : Env) : Outline (disputable env) Guard.free where
  inv _ := True
  rel := KeepsPayouts
  know _ h w := PayoutsKnown h w
  possible := Possible
  just := ChecksFirst
  rel_refl _ p hp := ⟨p, hp, rfl, rfl⟩
  rel_trans huv hvw p hp := by
    obtain ⟨p', hp', hkey, htx⟩ := huv p hp
    obtain ⟨p'', hp'', hkey', htx'⟩ := hvw p' hp'
    exact ⟨p'', hp'', hkey'.trans hkey, htx'.trans htx⟩
  know_nil _ _ _ hp := by
    obtain ⟨e, he, -⟩ := hp
    cases he
  know_rel hrel hk := hk.mono hrel
  drift _ hm := ⟨trivial, keepsPayouts_drift hm⟩
  exec _ hk _ _ he := ⟨trivial, keepsPayouts_change (exec_change he), payoutsKnown_cons hk he⟩
  answer he := possible_of_exec he
  code := code_checksFirst

/-- The transaction has an `OPEN` dispute whenever it has one under review. -/
def seesFrozen (w : World) (id : Uuid) : Bool :=
  w.disputes.rows.all (fun d => !(d.transactionId == id && d.status == .underReview)) ||
    w.disputes.rows.any fun d => d.transactionId == id && d.status == .open

/-- Every payout's check finds an `OPEN` dispute whenever the transaction has a freezing one. -/
def payoutsSee (env : Env) : Guard (disputable env) := fun _ _ w op =>
  match op with
  | .disputeCount id _ => seesFrozen w id
  | _ => true

/-- **What a check tells.** -/
theorem not_frozen_of_clears {e : Event Op.Ans Err} {o : Outcome} (hc : Clears c e id)
    (he : exec e.op o u = some (e.ans, w))
    (hsees : ∀ t status, e.op = .disputeCount t status → seesFrozen u t = true) :
    ¬ Frozen u id c.resolving := by
  rintro ⟨d, hd, htx, hfreeze, hother⟩
  unfold Clears at hc
  split at hc
  · obtain ⟨rfl, rfl, rfl⟩ := hc
    rcases exec_cases he with ⟨-, e, herr⟩ | ⟨s, -, -, ha | ⟨e, herr⟩⟩
    · cases herr
    · obtain ⟨t, -, heq⟩ := Option.map_eq_some_iff.mp (Except.ok.inj ha).symm
      have hnone := List.filter_eq_nil_iff.mp (congrArg Prod.snd heq) d hd
      exact hnone (by
        rw [Bool.and_eq_true, beq_iff_eq]
        exact ⟨htx, by simpa using hfreeze⟩)
    · cases herr
  · obtain ⟨rfl, rfl, rfl⟩ := hc
    rcases exec_cases he with ⟨-, e, herr⟩ | ⟨s, -, -, ha | ⟨e, herr⟩⟩
    · cases herr
    · have hzero := List.countP_eq_zero.mp (Except.ok.inj ha).symm
      have hno : ∀ d' ∈ u.disputes, ¬ (d'.transactionId = d.transactionId ∧ d'.status = .open) := by
        intro d' hd' hopen
        exact hzero d' hd' (by simp [hopen, htx])
      have hseen := hsees _ _ rfl
      rw [seesFrozen, Bool.or_eq_true, List.all_eq_true, List.any_eq_true] at hseen
      rcases hseen with hall | ⟨d', hd', hopen⟩
      · have hnot := hall d hd
        simp only [freezingDisputeStatuses, List.mem_cons, List.not_mem_nil, or_false] at hfreeze
        rcases hfreeze with hst | hst
        · exact hno d hd ⟨rfl, hst⟩
        · simp [htx, hst] at hnot
      · exact hno d' hd' (by simpa [htx] using hopen)
    · cases herr
  · obtain ⟨rfl, rfl, hresolving, rfl⟩ := hc
    rcases exec_cases he with ⟨-, e, herr⟩ | ⟨s, -, -, ha | ⟨e, herr⟩⟩
    · cases herr
    · have hzero := List.countP_eq_zero.mp (Except.ok.inj ha).symm
      refine hzero d hd ?_
      have hne : d.id ≠ _ := fun heq => hother (by rw [hresolving, heq])
      simp only [Bool.and_eq_true, beq_iff_eq, bne_iff_ne]
      exact ⟨⟨htx, by simpa [openDisputeStatuses, freezingDisputeStatuses] using hfreeze⟩, hne⟩
    · cases herr
  · exact hc

/-- Whatever is about to release a transaction decided on a world in which no dispute froze it. -/
def HeldBack (G : Guard (disputable env)) (w : World) (ls : List (Label (disputable env)))
    (x : Config (disputable env)) : Prop :=
  ∀ (i : Nat) (p : Process (disputable env)) (op : Op)
    (k : Except Err op.Ans → Prog Op.Ans Err Reply) (id : Uuid), x.procs[i]? = some p →
    p.prog = some (.call op k) → Releases p.call op id →
    ∃ u, Config.lastSeen Call.checks G i ls ⟨w, []⟩ none = some u ∧ ¬ Frozen u id p.call.resolving

/-- The payouts' check finds nothing just when the machine's does. -/
def SameNotion (w : World) (id : Uuid) : Prop :=
  w.disputes.count (fun d => d.transactionId == id && d.status == .open) = 0 ↔
    w.disputes.filter (fun d => d.transactionId == id &&
      freezingDisputeStatuses.contains d.status) = []

theorem sameNotion_iff (w : World) (id : Uuid) : SameNotion w id ↔ seesFrozen w id = true := by
  have hopen : w.disputes.count (fun d => d.transactionId == id && d.status == .open) = 0 ↔
      ∀ d ∈ w.disputes, ¬ (d.transactionId = id ∧ d.status = .open) := by
    refine List.countP_eq_zero.trans (forall_congr' fun d => imp_congr Iff.rfl ?_)
    simp
  have hfreezing : w.disputes.filter (fun d => d.transactionId == id &&
      freezingDisputeStatuses.contains d.status) = [] ↔ ∀ d ∈ w.disputes,
        ¬ (d.transactionId = id ∧ (d.status = .open ∨ d.status = .underReview)) := by
    refine List.filter_eq_nil_iff.trans (forall_congr' fun d => imp_congr Iff.rfl ?_)
    simp [freezingDisputeStatuses]
  have hsees : seesFrozen w id = true ↔
      (∀ d ∈ w.disputes, ¬ (d.transactionId = id ∧ d.status = .underReview)) ∨
        ∃ d ∈ w.disputes, d.transactionId = id ∧ d.status = .open := by
    rw [seesFrozen, Bool.or_eq_true, List.all_eq_true, List.any_eq_true]
    refine or_congr (forall_congr' fun d => imp_congr Iff.rfl ?_)
      (exists_congr fun d => and_congr Iff.rfl ?_)
    · simp [Decidable.imp_iff_not_or]
    · simp
  rw [SameNotion, hopen, hfreezing, hsees]
  constructor
  · intro hiff
    by_cases hany : ∃ d ∈ w.disputes, d.transactionId = id ∧ d.status = .open
    · exact .inr hany
    · refine .inl fun d hd hreview => ?_
      have hnone := hiff.mp (fun d hd hopen => hany ⟨d, hd, hopen⟩) d hd
      exact hnone ⟨hreview.1, .inr hreview.2⟩
  · rintro (hreview | ⟨d, hd, hopen⟩)
    · refine ⟨fun hno d hd hfreeze => ?_, fun hno d hd hopen =>
        hno d hd ⟨hopen.1, .inl hopen.2⟩⟩
      exact hfreeze.2.elim (fun hst => hno d hd ⟨hfreeze.1, hst⟩)
        fun hst => hreview d hd ⟨hfreeze.1, hst⟩
    · exact ⟨fun hno => absurd hopen (hno d hd),
        fun hno => absurd ⟨hopen.1, .inl hopen.2⟩ (hno d hd)⟩

/-- **An open dispute freezes release.** From every world, in every run whose payout checks find an
`OPEN` dispute whenever they meet a freezing one, no release is decided on a world in which a dispute
froze it. The payouts' notion of a freezing dispute is the machine's just where that holds. -/
theorem release_frozen (env : Env) :
    (∀ w ls x, Config.run (payoutsSee env) ls ⟨w, []⟩ = some x → HeldBack (payoutsSee env) w ls x) ∧
    ∀ w id, SameNotion w id ↔ seesFrozen w id = true := by
  refine ⟨fun w ls x hrun i p op k id hp hk hr => ?_, sameNotion_iff⟩
  have hholds := ((checked env).holds_reaches ((checked env).holds_init trivial)
    (reaches_of_run hrun).free).1
  have hmem := List.mem_of_getElem? hp
  have hchecks : ChecksFirst p.call p.hist op := hholds.justified hmem hk
  obtain ⟨e, hfind, hclears⟩ := hchecks (hholds.know p hmem).same id hr
  have hrecalls : x.Recalls Call.checks (payoutsSee env) i
      (Config.lastSeen Call.checks (payoutsSee env) i ls ⟨w, []⟩ none) :=
    Config.Recalls.run (fun p hp => by cases hp) hrun
  obtain ⟨u, hu, choice, w', h', he, hG⟩ := hrecalls p hp e hfind
  refine ⟨u, hu, not_frozen_of_clears hclears he fun t status hop => ?_⟩
  rw [hop] at hG
  exact hG

namespace Demo

/-- A dispute of the sale, under review. -/
def reviewed : Dispute where
  id := charge
  transactionId := sale
  openedBy := buyer
  reason := .damaged
  description := none
  desiredOutcome := none
  status := .underReview
  resolution := none
  resolvedBy := none

/-- The sale, being released. -/
def releasingSale : Transaction where
  id := sale
  publicLinkId := sale.hex
  sellerId := seller
  buyerId := some buyer
  title := "Phone"
  description := none
  amount := 1000
  currency := "NGN"
  status := .releaseProcessing
  releaseRule := .buyerConfirmation
  expectedDeliveryDate := none
  feeModel := .buyerPays
  feeAmount := 0
  merchantId := none
  origin := .web

/-- A database with the sale, its seller and these disputes. -/
def database (disputes : Table Dispute) : World :=
  { World.initial with
    sellerProfiles := sellers
    transactions := ⟨[releasingSale], List.pairwise_singleton _ _⟩
    disputes := disputes }

/-- A release up to its request for a transfer. -/
def sending (env : Env) : List (Label (disputable env)) :=
  ((.arrive (.executeRelease sale) :: serves env 0 2 ++ [serve env 0 { id := release }, serve env 0] :
    List (Label (core env)))).map Label.within

/-- Process 0 releases the sale and is about to ask for its transfer. -/
def isSending {env : Env} (x : Config (disputable env)) : Bool :=
  match (x.procs[0]? : Option (Process (disputable env))) with
  | some ⟨.executeRelease t, _, some (.call (.initiateTransfer _) _)⟩ => t == sale
  | _ => false

theorem releases_of_isSending {env : Env} {x : Config (disputable env)} (h : isSending x = true) :
    ∃ (p : Process (disputable env)) (op : Op) (k : Except Err op.Ans → Prog Op.Ans Err Reply),
      x.procs[0]? = some p ∧ p.prog = some (.call op k) ∧ Releases p.call op sale ∧
        p.call.resolving = none := by
  unfold isSending at h
  split at h
  · rename_i t hist i k hp
    exact ⟨_, _, k, hp, rfl, beq_iff_eq.mp h, rfl⟩
  · cases h

end Demo

set_option maxRecDepth 20000 in
/-- **A dispute under review does not stop a payout.** -/
theorem release_unfrozen : ¬ ∀ (env : Env) w ls x,
    Config.run (Guard.free : Guard (disputable env)) ls ⟨w, []⟩ = some x →
      HeldBack Guard.free w ls x := by
  intro hall
  have hrun : ((Config.run Guard.free (Demo.sending Demo.silent)
      ⟨Demo.database ⟨[Demo.reviewed], List.pairwise_singleton _ _⟩, []⟩).map Demo.isSending) =
        some true := by decide
  have hseen : ((Config.lastSeen Call.checks Guard.free 0 (Demo.sending Demo.silent)
      ⟨Demo.database ⟨[Demo.reviewed], List.pairwise_singleton _ _⟩, []⟩ none).map fun u =>
        decide (u.disputes.rows = [Demo.reviewed])) = some true := by decide
  obtain ⟨x, hx, htest⟩ := Option.map_eq_some_iff.mp hrun
  obtain ⟨p, op, k, hp, hk, hr, hres⟩ := Demo.releases_of_isSending htest
  obtain ⟨u, hu, hno⟩ := hall _ _ _ x hx 0 p op k Demo.sale hp hk hr
  rw [hu] at hseen
  have hrows : u.disputes.rows = [Demo.reviewed] :=
    of_decide_eq_true (Option.some.inj hseen)
  refine hno ⟨Demo.reviewed, ?_, rfl, by decide, by rw [hres]; simp⟩
  rw [Table.mem_def, hrows]
  exact List.mem_singleton_self _

set_option maxRecDepth 20000 in
/-- A sale without disputes is released, decided on a world in which nothing froze it. -/
theorem release_frozen_undisputed : ∃ x, Demo.isSending x = true ∧
    HeldBack (payoutsSee Demo.silent) (Demo.database .empty) (Demo.sending Demo.silent) x := by
  have hrun : ((Config.run (payoutsSee Demo.silent) (Demo.sending Demo.silent)
      ⟨Demo.database .empty, []⟩).map Demo.isSending) = some true := by decide
  obtain ⟨x, hx, htest⟩ := Option.map_eq_some_iff.mp hrun
  exact ⟨x, htest, (release_frozen Demo.silent).1 _ _ x hx⟩

end Meduman
