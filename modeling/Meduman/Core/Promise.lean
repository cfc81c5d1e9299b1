import Meduman.Core.Justify

/-!
# Every call keeps its promise

One lemma for each service function: its operations are justified from the history it is entered
with. The functions that write nothing of their own accord only extend the history.

* `apply_along`, `sendTransfer_along`, `verifyAndProtectPayment_along`, … : the service functions
* **`code_justified`** : every call
-/

set_option autoImplicit false

namespace Meduman

open Effect

variable {env : Env} {c : Call} {h : Hist} {α : Type}

/-- The operations of a program are justified, from history `h`. -/
abbrev Keeps (env : Env) (c : Call) (p : Program α) (Q : Except Err α → Hist → Prop) (h : Hist) :
    Prop := p.Along Possible (Justified env c) Q h

/-- Any result will do. -/
abbrev done {α : Type} : Except Err α → Hist → Prop := fun _ _ => True

theorem keeps_map {β : Type} {f : α → β} {p : Program α} (hp : Keeps env c p done h) :
    Keeps env c (f <$> p) done h := by
  rw [Keeps, Prog.map_eq, along_bind]
  refine Prog.Along.mono hp fun r h' _ => ?_
  cases r <;> trivial

theorem keeps_bind {β : Type} {p : Program α} {f : α → Program β} (hp : Keeps env c p done h)
    (hf : ∀ a h', Keeps env c (f a) done h') : Keeps env c (p >>= f) done h := by
  rw [Keeps, along_bind]
  refine Prog.Along.mono hp fun r h' _ => ?_
  cases r with
  | ok a => exact hf a h'
  | error e => trivial

theorem keeps_tryCatch {p : Program α} {handler : Err → Program α} (hp : Keeps env c p done h)
    (hh : ∀ e h', Keeps env c (handler e) done h') : Keeps env c (p.tryCatch handler) done h := by
  rw [Keeps, along_tryCatch]
  refine Prog.Along.mono hp fun r h' _ => ?_
  cases r with
  | ok a => trivial
  | error e => exact hh e h'

theorem keeps_free {p : Program α} {Q : Except Err α → Hist → Prop} (hp : p.Uses Op.isFree)
    (hQ : ∀ r h', h <:+ h' → Q r h') : Keeps env c p Q h :=
  hp.along justified_of_isFree fun r l _ => hQ r _ ⟨l, rfl⟩

/-! ## Free functions -/

theorem dispatch_free (eventId : Uuid) : (dispatch eventId).Uses Op.isFree :=
  uses_tryCatch (uses_perform trivial) fun _ => trivial

theorem grantRoleFlag_free (userId : Uuid) (flag : UserRole) :
    (grantRoleFlag userId flag).Uses Op.isFree := by
  refine uses_bind (uses_perform trivial) fun user => ?_
  cases user with
  | none => trivial
  | some user =>
      dsimp only
      split
      · trivial
      · exact uses_perform trivial

theorem markPaidByTransaction_quiet (transactionId : Uuid) :
    (markPaidByTransaction transactionId).Uses Op.isQuiet := by
  refine uses_bind (uses_perform trivial) fun count => ?_
  split
  · refine uses_bind (uses_perform trivial) fun invoice => ?_
    cases invoice with
    | none => trivial
    | some invoice => exact uses_perform (by simp [Op.isQuiet])
  · trivial

theorem notifyProtected_quiet (transactionId : Uuid) :
    (notifyProtected transactionId).Uses Op.isQuiet := by
  refine uses_bind (uses_perform trivial) fun tx => ?_
  cases tx with
  | none => trivial
  | some tx =>
      dsimp only
      cases tx.buyerId with
      | none => exact uses_perform trivial
      | some buyerId => exact uses_bind (uses_perform trivial) fun _ => uses_perform trivial

theorem keeps_quiet {p : Program α} (hp : p.Uses Op.isQuiet) : Keeps env c p done h :=
  keeps_free (hp.mono isFree_of_isQuiet) fun _ _ _ => trivial

theorem isStale_free (data : PaystackWebhookData) : (isStale env data).Uses Op.isFree := by
  unfold isStale
  split
  · trivial
  · exact uses_bind (uses_perform trivial) fun _ => trivial

/-! ## Transitions -/

theorem apply_along {input : ApplyTransitionInput} {Q : Except Err Transaction → Hist → Prop}
    (hev : ∀ e, EventJustified (e :: h) input) (hQ : ∀ r h', h <:+ h' → Q r h') :
    Keeps env c (apply input) Q h := by
  unfold apply
  rw [Keeps, along_perform_bind]
  refine ⟨trivial, fun e _ => hQ _ _ ⟨[_], rfl⟩, ?_⟩
  rintro (_ | ⟨tx, disputes⟩) -
  · exact hQ _ _ ⟨[_], rfl⟩
  · dsimp only
    split
    · exact hQ _ _ ⟨[_], rfl⟩
    · rename_i nextState hok
      rw [along_perform_bind]
      refine ⟨⟨input, tx, disputes, nextState, List.mem_cons_self, hok, rfl, hev _⟩,
        fun e _ => hQ _ _ ⟨[_, _], rfl⟩, ?_⟩
      rintro ⟨updatedTx, _ | eventId⟩ -
      · exact hQ _ _ ⟨[_, _], rfl⟩
      · dsimp only
        rw [along_bind]
        refine keeps_free (dispatch_free eventId) fun r h' hsuf => ?_
        have hsuf : h <:+ h' := (show h <:+ _ :: _ :: h from ⟨[_, _], rfl⟩).trans hsuf
        cases r with
        | ok _ => exact hQ _ _ hsuf
        | error e => exact hQ _ _ hsuf

/-- The events of the publishing, delivery, confirmation and dispute services need no reason. -/
theorem apply_keeps {input : ApplyTransitionInput} (hev : drivenElsewhere input.event = true) :
    Keeps env c (apply input) done h := by
  refine apply_along (fun e => ?_) fun _ _ _ => trivial
  unfold EventJustified
  split
  · rename_i hpaid; rw [hpaid] at hev; cases hev
  · rename_i hpaid; rw [hpaid] at hev; cases hev
  · exact .inl hev

/-! ## Payouts -/

/-- A call that asked for a transfer of a payout: what it saw last of it, and what before. -/
structure Sending (h : Hist) (payout : Payout) : Prop where
  last : ∃ p, lastPayout h = some p ∧ p.idempotencyKey = payout.idempotencyKey ∧
    (p.status = payout.status ∨ p.status = .processing)
  sent : sentPayout h = some payout
  unsettled : payout.status ≠ .success
  shown : PayoutShown h payout

theorem TransferSend.sending {i : InitiateTransferInput} {payout : Payout}
    (hj : TransferSend c h i payout) (a : Except Err (Op.initiateTransfer i).Ans) :
    Sending (⟨.initiateTransfer i, a⟩ :: h) payout where
  last := ⟨payout, hj.last, rfl, .inl rfl⟩
  sent := (sentPayout_transfer hj.first).trans hj.last
  unsettled := hj.unsettled
  shown := (lastPayout_shown hj.last).mono (List.subset_cons_self _ _)

theorem Sending.cons {payout : Payout} (hs : Sending h payout) {e : Event Op.Ans Err}
    (he : payoutOf e = none) : Sending (e :: h) payout where
  last := by simpa only [lastPayout, he, Option.none_or] using hs.last
  sent := sentPayout_append hs.sent [e]
  unsettled := hs.unsettled
  shown := hs.shown.mono (List.subset_cons_self _ _)

theorem Sending.updated {payout updated : Payout} (hs : Sending h payout) {d : PayoutUpdate}
    (hd : d.status = some .processing)
    (hpos : Possible ⟨.payoutUpdate payout.idempotencyKey d, .ok updated⟩) :
    Sending (⟨.payoutUpdate payout.idempotencyKey d, .ok updated⟩ :: h) payout where
  last := by
    obtain ⟨u, w, -, p₀, -, hkey, rfl⟩ := hpos.answered
    refine ⟨_, rfl, hkey, .inr ?_⟩
    simp only [PayoutUpdate.apply, hd, Option.getD_some]
  sent := sentPayout_append hs.sent [_]
  unsettled := hs.unsettled
  shown := hs.shown.mono (List.subset_cons_self _ _)

theorem Sending.payoutWrite {payout : Payout} (hs : Sending h payout) {code reference : String}
    (hcode : CodeSource env c h payout.idempotencyKey code)
    (href : ReferenceSource h payout.idempotencyKey reference) :
    PayoutWrite env c h payout.idempotencyKey
      { providerTransferCode := some (some code), providerTransferReference := some (some reference)
        status := some .processing, attemptCountIncrement := 1, lastError := some none } where
  status := by
    obtain ⟨p, hp, hkey, hst⟩ := hs.last
    refine fun _ _ => ⟨p, hp, hkey, ?_⟩
    rcases hst with hst | hst <;> rw [hst]
    · exact hs.unsettled
    · exact PayoutStatus.noConfusion
  processing := by
    obtain ⟨p, hp, -, hst⟩ := hs.last
    exact fun _ => ⟨p, payout, hp, hs.sent, hst⟩
  failed := by rintro (h | h) <;> cases h
  code := by rintro code' h; cases h; exact hcode
  reference := by rintro r h; cases h; exact href

theorem recordTransferSent_along {payout : Payout} {code reference : String}
    {Q : Except Err Payout → Hist → Prop} (hs : Sending h payout)
    (hcode : CodeSource env c h payout.idempotencyKey code)
    (href : ReferenceSource h payout.idempotencyKey reference)
    (hQ : ∀ r h', h <:+ h' → Sending h' payout → Q r h') :
    Keeps env c (recordTransferSent payout code reference) Q h := by
  unfold recordTransferSent
  rw [Keeps, along_perform_bind]
  refine ⟨hs.payoutWrite hcode href, fun e _ => hQ _ _ ⟨[_], rfl⟩ (hs.cons rfl),
    fun updated hpos => ?_⟩
  have hs' := hs.updated rfl hpos
  rw [along_perform_bind]
  exact ⟨by simp [Justified, payoutAudit], fun e _ => hQ _ _ ⟨[_, _], rfl⟩ (hs'.cons rfl),
    fun _ _ => hQ _ _ ⟨[_, _], rfl⟩ (hs'.cons rfl)⟩

theorem verifyTransfer_along {reference : String}
    {Q : Except Err (Option VerifyTransferResult) → Hist → Prop}
    (hnone : ∀ e, Q (.ok none) (⟨.fetchTransfer reference, .error e⟩ :: h))
    (hsome : ∀ v, Q (.ok (some v)) (⟨.fetchTransfer reference, .ok v⟩ :: h)) :
    Keeps env c (verifyTransfer reference) Q h := by
  unfold verifyTransfer
  rw [Keeps, along_tryCatch, along_perform_bind]
  exact ⟨trivial, fun e _ => hnone e, fun v _ => hsome v⟩

theorem isReference_getD {key : String} {reference : Option String}
    (h : reference = none ∨ ∃ n, reference = some (retryReference key (n + 1))) :
    IsReference key (reference.getD key) := by
  rcases h with rfl | ⟨n, rfl⟩
  · exact .inl rfl
  · exact .inr ⟨n, rfl⟩

/-- The reference a call may send a payout under: none by the release, a retry's by an operator who
saw the payout failed. -/
def MaySend (c : Call) (h : Hist) (payout : Payout) (reference : Option String) : Prop :=
  (c.Releases ∧ reference = none) ∨
    ((∃ k a, c = .retryTransfer k a) ∧
      (∃ n, reference = some (retryReference payout.idempotencyKey (n + 1))) ∧
      payout.status = .pending ∧ ∃ p₀, PayoutShown h p₀ ∧
        p₀.idempotencyKey = payout.idempotencyKey ∧ (p₀.status = .failed ∨ p₀.status = .reversed))

/-- What the sender does when the transfer failed: it adopts the transfer it finds. -/
def adopt (payout : Payout) (reference : String) (err : Err) : Program Payout := do
  match ← verifyTransfer reference with
  | some existing => recordTransferSent payout existing.transferCode reference
  | none => do
      let _ ← await (.payoutUpdate payout.idempotencyKey
        { lastError := some (some err.message), attemptCountIncrement := 1 })
      await (.auditLogCreate (payoutAudit payout "payout.transfer_send_failed" none .system
        (some err.message) [("idempotencyKey", .str payout.idempotencyKey),
          ("amount", .int payout.amount)]))
      Prog.throw err

theorem adopt_along {payout : Payout} {reference : String} (err : Err) (hs : Sending h payout)
    (href : IsReference payout.idempotencyKey reference) :
    Keeps env c (adopt payout reference err) done h := by
  unfold adopt
  rw [Keeps, along_bind]
  refine verifyTransfer_along (fun e' => ?_) fun v => ?_
  · rw [then_ok, along_perform_bind]
    refine ⟨⟨?_, ?_, ?_, ?_, ?_⟩, fun _ _ => trivial, fun _ _ => ?_⟩
    · rintro s ⟨⟩
    · rintro ⟨⟩
    · rintro (⟨⟨⟩⟩ | ⟨⟨⟩⟩)
    · rintro code ⟨⟩
    · rintro r ⟨⟩
    · rw [along_perform_bind]
      exact ⟨by simp [Justified, payoutAudit], fun _ _ => trivial, fun _ _ => trivial⟩
  · exact recordTransferSent_along (hs.cons rfl)
      (.inl ⟨_, v, List.mem_cons_self, rfl, .inl href⟩)
      (.inl ⟨v, List.mem_cons_self, href⟩) fun _ _ _ _ => trivial

theorem sendTransfer_along {payout : Payout} {reference : Option String}
    (hlast : lastPayout h = some payout) (hnew : sentPayout h = none)
    (hmay : MaySend c h payout reference) :
    Keeps env c (sendTransfer payout reference) done h := by
  unfold sendTransfer
  split
  · trivial
  rename_i hopen
  rw [not_or] at hopen
  have href : IsReference payout.idempotencyKey (reference.getD payout.idempotencyKey) :=
    isReference_getD (hmay.imp (fun h => h.2) fun h => h.2.1)
  rw [Keeps, along_perform_bind]
  refine ⟨trivial, fun e _ => trivial, fun seller _ => ?_⟩
  split
  · trivial
  · rename_i recipient hrec
    rw [along_tryCatch, along_perform_bind]
    have hsend : TransferSend c (⟨.sellerProfileFindUnique payout.sellerId, .ok seller⟩ :: h)
        { amount := payout.amount, recipient := recipient,
          reference := reference.getD payout.idempotencyKey,
          reason := transferReason payout.transactionId } payout :=
      { last := hlast
        first := (sentPayout_cons rfl).trans hnew
        unsettled := hopen.1
        reason := rfl
        amount := rfl
        reference := by
          rcases hmay with ⟨hc, rfl⟩ | ⟨hc, ⟨n, rfl⟩, hpend, p₀, hp₀, hkey, hst⟩
          · exact .inl ⟨hc, rfl⟩
          · exact .inr ⟨hc, ⟨n, rfl⟩, hpend, p₀, hp₀.mono (List.subset_cons_self _ _), hkey, hst⟩ }
    refine ⟨⟨payout, hsend⟩, fun e _ => adopt_along e (hsend.sending _) href, fun r _ => ?_⟩
    have hs := hsend.sending (.ok r)
    refine recordTransferSent_along hs
      (.inr (.inl ⟨_, r, payout, List.mem_cons_self, rfl, hs.shown, rfl, rfl⟩))
      (.inr ⟨_, r, payout, List.mem_cons_self, rfl, hs.shown, rfl, rfl⟩) fun r' h' _ hs'' => ?_
    cases r' with
    | ok _ => trivial
    | error e => exact adopt_along e hs'' href

theorem authorizePayout_along {tx : Transaction} {Q : Except Err Payout → Hist → Prop}
    (hshown : TransactionShown h tx) (hst : tx.status = .releaseProcessing)
    (hnew : sentPayout h = none)
    (hok : ∀ p h', lastPayout h' = some p → sentPayout h' = none → Q (.ok p) h')
    (herr : ∀ e h', Q (.error e) h') : Keeps env c (authorizePayout tx) Q h := by
  unfold authorizePayout
  rw [Keeps, along_tryCatch]
  refine (along_perform _ _).mpr ⟨⟨tx, hshown, rfl, hst, rfl, rfl, rfl⟩, fun e _ => ?_,
    fun p _ => hok p _ rfl ((sentPayout_cons rfl).trans hnew)⟩
  rw [rescue_error]
  split
  · rw [along_perform_bind]
    refine ⟨trivial, fun e _ => herr e _, ?_⟩
    rintro (_ | existing) -
    · exact herr _ _
    · exact hok existing _ rfl
        ((sentPayout_cons rfl).trans ((sentPayout_cons rfl).trans hnew))
  · exact herr _ _

theorem executeRelease_along (transactionId : Uuid) (hc : c.Releases) (hnew : sentPayout h = none) :
    Keeps env c (executeRelease transactionId) done h := by
  unfold executeRelease
  rw [Keeps, along_perform_bind]
  refine ⟨trivial, fun _ _ => trivial, ?_⟩
  rintro (_ | tx) -
  · trivial
  · dsimp only
    split
    · trivial
    · rename_i hst
      rw [along_perform_bind]
      refine ⟨trivial, fun _ _ => trivial, fun openDisputes _ => ?_⟩
      split
      · trivial
      · rw [along_bind]
        refine authorizePayout_along ⟨_, List.mem_cons_of_mem _ List.mem_cons_self, rfl⟩
          (not_not.mp hst) ((sentPayout_cons rfl).trans ((sentPayout_cons rfl).trans hnew))
          (fun p h' hlast hnew => ?_) fun _ _ => trivial
        exact sendTransfer_along hlast hnew (.inl ⟨hc, rfl⟩)

theorem markPaid_along {key code : String} (hcode : CodeSource env c h key code) :
    Keeps env c (markPaid key code) done h := by
  unfold markPaid
  rw [Keeps, along_perform_bind]
  refine ⟨trivial, fun _ _ => trivial, ?_⟩
  rintro (_ | payout) hpos
  · trivial
  · obtain ⟨u, w, -, hkey⟩ := hpos.answered
    dsimp only
    split
    · trivial
    · rename_i hst
      rw [along_perform_bind]
      refine ⟨⟨?_, ?_, ?_, ?_, ?_⟩, fun _ _ => trivial, fun updated hupd => ?_⟩
      · exact fun _ _ => ⟨payout, rfl, hkey, hst⟩
      · rintro ⟨⟩
      · rintro (⟨⟨⟩⟩ | ⟨⟨⟩⟩)
      · rintro code' ⟨⟩
        exact hcode.mono (List.subset_cons_self _ _)
      · rintro r ⟨⟩
      · obtain ⟨u', w', -, p₀, -, hkey', rfl⟩ := hupd.answered
        rw [along_bind]
        refine apply_along (fun e => ?_) fun r h' _ => ?_
        · refine ⟨payout, _, ⟨⟨.payoutFindUnique key, .ok (some payout)⟩, ?_, rfl⟩, rfl,
            ⟨_, List.mem_cons_of_mem _ List.mem_cons_self, rfl⟩, hkey'.trans hkey.symm, rfl⟩
          exact List.mem_cons_of_mem _ (List.mem_cons_of_mem _ List.mem_cons_self)
        · cases r <;> trivial

theorem markFailed_along {key : String} {status : FailedStatus} {reason : String}
    (hrep : ReportsFailed env c key) : Keeps env c (markFailed key status reason) done h := by
  unfold markFailed
  rw [Keeps, along_perform_bind]
  refine ⟨trivial, fun _ _ => trivial, ?_⟩
  rintro (_ | payout) hpos
  · trivial
  · obtain ⟨u, w, -, hkey⟩ := hpos.answered
    dsimp only
    split
    · trivial
    · rename_i hst
      rw [along_perform_bind]
      refine ⟨⟨?_, ?_, ?_, ?_, ?_⟩, fun _ _ => trivial, fun updated hupd => ?_⟩
      · exact fun _ _ => ⟨payout, rfl, hkey, hst⟩
      · cases status <;> rintro ⟨⟩
      · exact fun _ => hrep
      · rintro code' ⟨⟩
      · rintro r ⟨⟩
      · rw [along_perform_bind]
        refine ⟨?_, fun _ _ => trivial, fun _ _ => trivial⟩
        cases status <;> simp [Justified, payoutAudit]

theorem retryTransfer_along (key adminId : String) (hc : c = .retryTransfer key adminId) :
    Keeps env c (retryTransfer key adminId) done [] := by
  unfold retryTransfer
  rw [Keeps, along_perform_bind]
  refine ⟨trivial, fun _ _ => trivial, ?_⟩
  rintro (_ | payout) hpos
  · trivial
  obtain ⟨u, w, -, hkey⟩ := hpos.answered
  dsimp only
  split
  · trivial
  rename_i hopen
  split
  · trivial
  rename_i hfailed
  rw [along_perform_bind]
  refine ⟨trivial, fun _ _ => trivial, fun openDisputes _ => ?_⟩
  split
  · trivial
  -- the lookup of the previous attempt decides between settling and sending again
  have send : ∀ a, Keeps env c (do
      await (.auditLogCreate (payoutAudit payout "payout.transfer_retried" (some adminId) .admin
        (some (payout.lastError.getD ("Retry after " ++ payout.status.text)))
        [("amount", .int payout.amount),
          ("previousReference",
            .str (payout.providerTransferReference.getD payout.idempotencyKey)),
          ("providerTransferReference",
            .str (retryReference payout.idempotencyKey (payout.attemptCount + 1)))]))
      let reset ← await (.payoutUpdate key
        { status := some .pending, providerTransferCode := some none, lastError := some none })
      sendTransfer reset (some (retryReference payout.idempotencyKey (payout.attemptCount + 1))))
      done (⟨.fetchTransfer (payout.providerTransferReference.getD payout.idempotencyKey), a⟩ ::
        ⟨.disputeCount payout.transactionId .open, .ok openDisputes⟩ ::
        [⟨.payoutFindUnique key, .ok (some payout)⟩]) := by
    intro a
    rw [Keeps, along_perform_bind]
    refine ⟨by simp [Justified, payoutAudit], fun _ _ => trivial, fun _ _ => ?_⟩
    rw [along_perform_bind]
    refine ⟨⟨?_, ?_, ?_, ?_, ?_⟩, fun _ _ => trivial, fun reset hreset => ?_⟩
    · exact fun _ _ => ⟨payout, rfl, hkey, hopen⟩
    · rintro ⟨⟩
    · rintro (⟨⟨⟩⟩ | ⟨⟨⟩⟩)
    · rintro code' ⟨⟩
    · rintro r ⟨⟩
    · obtain ⟨u', w', -, p₀, -, hkey', rfl⟩ := hreset.answered
      refine sendTransfer_along rfl rfl (.inr ⟨⟨_, _, hc⟩, ⟨payout.attemptCount, ?_⟩, rfl, payout,
        ⟨⟨.payoutFindUnique key, .ok (some payout)⟩, ?_, rfl⟩, hkey.trans hkey'.symm, ?_⟩)
      · rw [hkey]
        exact congrArg (fun k => some (retryReference k _)) hkey'.symm
      · simp only [List.mem_cons, true_or, or_true]
      · rw [not_and_or, not_not, not_not] at hfailed
        exact hfailed
  rw [along_bind]
  refine verifyTransfer_along (fun e => send _) fun v => ?_
  rw [then_ok]
  cases hv : (some v).filter fun p => decide (p.status = "success") with
  | none => exact send _
  | some prior =>
      have hprior : prior = v := by
        rw [Option.filter_eq_some_iff] at hv
        exact (Option.some.inj hv.1).symm
      subst hprior
      dsimp only
      rw [along_perform_bind]
      refine ⟨by simp [Justified, payoutAudit], fun _ _ => trivial, fun _ _ => markPaid_along (.inl ⟨_, prior,
        List.mem_cons_of_mem _ List.mem_cons_self, rfl, ?_⟩)⟩
      cases href : payout.providerTransferReference with
      | none => exact .inl (.inl hkey)
      | some r =>
          refine .inr ⟨payout, ⟨⟨.payoutFindUnique key, .ok (some payout)⟩, ?_, rfl⟩, hkey, href⟩
          simp only [List.mem_cons, true_or, or_true]

/-! ## Payments -/

theorem isOurReference_mdn (s : String) : isOurReference ("mdn_" ++ s) = true := by
  simp [isOurReference, String.toList_append]

theorem isOurReference_mdn_dva (s : String) : isOurReference ("mdn_dva_" ++ s) = true := by
  simp [isOurReference, String.toList_append]

theorem linkBuyer_free (tx : Transaction) (buyerId : Uuid) :
    (linkBuyer tx buyerId).Uses Op.isFree := by
  unfold linkBuyer
  split
  · exact uses_perform trivial
  · trivial

theorem resolveTransaction_along {input : InitializeCollectionInput}
    {Q : Except Err (Option Transaction) → Hist → Prop}
    (hsome : ∀ tx h', TransactionShown h' tx → Q (.ok (some tx)) h')
    (hnone : ∀ h', Q (.ok none) h') (herr : ∀ e h', Q (.error e) h') :
    Keeps env c (resolveTransaction input) Q h := by
  unfold resolveTransaction
  split
  · refine (along_perform _ _).mpr ⟨trivial, fun e _ => herr e _, ?_⟩
    rintro (_ | tx) -
    · exact hnone _
    · exact hsome tx _ ⟨_, List.mem_cons_self, rfl⟩
  · refine (along_perform _ _).mpr ⟨trivial, fun e _ => herr e _, ?_⟩
    rintro (_ | tx) -
    · exact hnone _
    · exact hsome tx _ ⟨_, List.mem_cons_self, rfl⟩
  · exact hnone _

theorem initializeCollection_along (input : InitializeCollectionInput) :
    Keeps env c (initializeCollection env input) done h := by
  unfold initializeCollection
  rw [Keeps, along_bind]
  refine resolveTransaction_along (fun tx h' hshown => ?_) (fun _ => trivial) fun _ _ => trivial
  rw [then_ok]
  dsimp only
  rw [along_bind]
  refine apply_along (fun _ => .inr rfl) fun r h₁ hsuf => ?_
  cases r with
  | error e => trivial
  | ok _ =>
      rw [then_ok, along_bind]
      refine keeps_free (linkBuyer_free tx input.buyerId) fun r h₂ hsuf₂ => ?_
      cases r with
      | error e => trivial
      | ok _ =>
          have htx := hshown.mono ((hsuf.trans hsuf₂).subset)
          rw [then_ok, along_perform_bind]
          refine ⟨trivial, fun _ _ => trivial, fun uuid _ => ?_⟩
          rw [along_perform_bind]
          refine ⟨⟨rfl, isOurReference_mdn _, tx, htx.mono (List.subset_cons_self _ _), rfl, rfl⟩,
            fun _ _ => trivial, fun payment _ => ?_⟩
          rw [along_perform_bind]
          exact ⟨⟨_, payment, List.mem_cons_self, rfl⟩, fun _ _ => trivial, fun _ _ => trivial⟩

theorem initializeVirtualAccount_along (transactionId buyerId : Uuid) (email : String) :
    Keeps env c (initializeVirtualAccount transactionId buyerId email) done h := by
  unfold initializeVirtualAccount
  rw [Keeps, along_perform_bind]
  refine ⟨trivial, fun _ _ => trivial, ?_⟩
  rintro (_ | tx) -
  · trivial
  dsimp only
  rw [along_perform_bind]
  refine ⟨trivial, fun _ _ => trivial, ?_⟩
  rintro (_ | existing) -
  · dsimp only
    rw [along_bind]
    refine apply_along (fun _ => .inr rfl) fun r h₁ hsuf => ?_
    cases r with
    | error e => trivial
    | ok _ =>
        rw [then_ok, along_bind]
        refine keeps_free (linkBuyer_free tx buyerId) fun r h₂ hsuf₂ => ?_
        cases r with
        | error e => trivial
        | ok _ =>
            have htx : TransactionShown h₂ tx :=
              ⟨⟨.transactionFindUnique (.id transactionId), .ok (some tx)⟩,
                (hsuf.trans hsuf₂).subset (List.mem_cons_of_mem _ List.mem_cons_self), rfl⟩
            rw [then_ok, along_perform_bind]
            refine ⟨trivial, fun _ _ => trivial, fun uuid _ => ?_⟩
            rw [along_perform_bind]
            refine ⟨trivial, fun _ _ => trivial, fun customerCode _ => ?_⟩
            rw [along_perform_bind]
            refine ⟨trivial, fun _ _ => trivial, fun account _ => ?_⟩
            rw [along_perform_bind]
            exact ⟨⟨rfl, isOurReference_mdn_dva _, tx,
              htx.mono fun _ he => List.mem_cons_of_mem _
                (List.mem_cons_of_mem _ (List.mem_cons_of_mem _ he)), rfl, rfl⟩,
              fun _ _ => trivial, fun payment _ => trivial⟩
  · trivial

theorem attachDedicatedAccount_along (customerCode accountNumber bankName : String)
    (dedicatedAccountId : Option String) :
    Keeps env c (attachDedicatedAccount customerCode accountNumber bankName dedicatedAccountId)
      done h := by
  unfold attachDedicatedAccount
  rw [Keeps, along_perform_bind]
  refine ⟨trivial, fun _ _ => trivial, ?_⟩
  rintro (_ | payment) -
  · trivial
  dsimp only
  rw [along_perform_bind]
  refine ⟨(by rintro s ⟨⟩), fun _ _ => trivial, fun updated _ => ?_⟩
  rw [along_perform_bind]
  refine ⟨trivial, fun _ _ => trivial, ?_⟩
  rintro (_ | tx) -
  · trivial
  dsimp only
  split
  · trivial
  · rw [along_perform_bind]
    exact ⟨trivial, fun _ _ => trivial, fun _ _ => trivial⟩

theorem verifyAndProtectPayment_along {payment : Payment} {reference : String}
    {source : TrustedPaymentSource} (hlast : lastPayment h = some payment)
    (hours : payment.providerReference = reference ∨
      payment.providerChargeReference = some reference ∨
      Saw h (.paymentBindCharge payment.id reference) 1) :
    Keeps env c (verifyAndProtectPayment payment reference source) done h := by
  unfold verifyAndProtectPayment
  split
  · exact keeps_bind (keeps_quiet (markPaidByTransaction_quiet _)) fun _ _ => trivial
  rename_i hopen
  rw [Keeps, along_perform_bind]
  refine ⟨trivial, fun _ _ => trivial, fun verified hpos => ?_⟩
  obtain ⟨u, w, -, href⟩ := hpos.answered
  split
  · refine (along_perform _ _).mpr ⟨?_, fun _ _ => trivial, fun _ _ => trivial⟩
    intro s hs
    refine ⟨⟨payment, hlast, rfl, hopen⟩, fun hsucc => ?_⟩
    rw [hsucc] at hs
    simp only [Option.some.injEq] at hs
    split at hs <;> cases hs
  rename_i hsuccess
  split
  · trivial
  rename_i hamount
  have hver : Verified (⟨.verifyTransaction reference, .ok verified⟩ :: h) payment reference
      verified :=
    { shown := (lastPayment_shown hlast).mono (List.subset_cons_self _ _)
      ours := hours.imp_right fun ho => ho.imp_right (List.mem_cons_of_mem _)
      asked := List.mem_cons_self
      success := not_not.mp hsuccess
      amount := not_not.mp hamount }
  rw [along_perform_bind]
  refine ⟨fun s hs => ⟨⟨payment, hlast, rfl, hopen⟩,
    fun _ => ⟨payment, reference, verified, rfl, hver⟩⟩, fun _ _ => trivial, fun updated _ => ?_⟩
  refine keeps_bind (apply_along (fun e => ?_) fun _ _ _ => trivial) fun _ _ => ?_
  · refine ⟨payment, reference, verified, source, _, updated, ?_,
      List.mem_cons_of_mem _ List.mem_cons_self, rfl, rfl⟩
    have hsub : ∀ e₁ e₂ : Event Op.Ans Err, ∀ l : Hist, l ⊆ e₁ :: e₂ :: l :=
      fun _ _ _ _ he => List.mem_cons_of_mem _ (List.mem_cons_of_mem _ he)
    exact
      { shown := hver.shown.mono (hsub _ _ _)
        ours := hver.ours.imp_right fun ho => ho.imp_right fun hs => hsub _ _ _ hs
        asked := hsub _ _ _ hver.asked
        success := hver.success
        amount := hver.amount }
  · refine keeps_bind (keeps_quiet (markPaidByTransaction_quiet _)) fun _ _ => ?_
    exact keeps_bind (keeps_quiet (notifyProtected_quiet _)) fun _ _ => trivial

theorem verifyAndProtect_along (reference : String) (source : TrustedPaymentSource) :
    Keeps env c (verifyAndProtect reference source) done h := by
  unfold verifyAndProtect
  rw [Keeps, along_perform_bind]
  refine ⟨trivial, fun _ _ => trivial, ?_⟩
  rintro (_ | payment) hpos
  · trivial
  · obtain ⟨u, w, -, hsel⟩ := hpos.answered
    exact verifyAndProtectPayment_along rfl (.inl (by simpa [PaymentKey.selects] using hsel))

theorem reconcilePayment_along (paymentId : Uuid) :
    Keeps env c (reconcilePayment paymentId) done h := by
  unfold reconcilePayment
  rw [Keeps, along_perform_bind]
  refine ⟨trivial, fun _ _ => trivial, ?_⟩
  rintro (_ | payment) -
  · trivial
  dsimp only
  split
  · trivial
  · refine verifyAndProtectPayment_along rfl ?_
    cases hc : payment.providerChargeReference with
    | none => exact .inl rfl
    | some r => exact .inr (.inl rfl)

theorem reconcileEach_along (stranded : List Payment) (n : Nat) :
    Keeps env c (reconcileEach stranded n) done h := by
  induction stranded generalizing n h with
  | nil => trivial
  | cons payment rest ih =>
      unfold reconcileEach
      refine keeps_bind (keeps_tryCatch (keeps_bind (reconcilePayment_along _) fun _ _ => trivial)
        fun _ _ => trivial) fun reached h' => ih _

theorem reconcilePending_along : Keeps env c (reconcilePending env) done h := by
  unfold reconcilePending
  rw [Keeps, along_perform_bind]
  refine ⟨trivial, fun _ _ => trivial, fun now _ => ?_⟩
  rw [along_perform_bind]
  exact ⟨trivial, fun _ _ => trivial,
    fun stranded _ => keeps_bind (reconcileEach_along stranded 0) fun _ _ => trivial⟩

theorem resolveDvaPayment_along {customerCode reference : String}
    {Q : Except Err (Option Payment) → Hist → Prop} (hrep : ReportsCharge env c reference)
    (hno : Saw h (.paymentFindUnique (.providerReference reference)) none)
    (hsome : ∀ p h', lastPayment h' = some p → (p.providerReference = reference ∨
      p.providerChargeReference = some reference ∨
      Saw h' (.paymentBindCharge p.id reference) 1) → Q (.ok (some p)) h')
    (hnone : ∀ h', Q (.ok none) h') (herr : ∀ e h', Q (.error e) h') :
    Keeps env c (resolveDvaPayment customerCode reference) Q h := by
  have bound : ∀ p h', Possible
      ⟨.paymentFindUnique (.providerChargeReference reference), .ok (some p)⟩ →
      Q (.ok (some p)) (⟨.paymentFindUnique (.providerChargeReference reference), .ok (some p)⟩ ::
        h') := fun p h' hpos => by
    obtain ⟨u, w, -, hsel⟩ := hpos.answered
    exact hsome p _ rfl (.inr (.inl (by simpa [PaymentKey.selects] using hsel)))
  unfold resolveDvaPayment
  rw [Keeps, along_perform_bind]
  refine ⟨trivial, fun e _ => herr e _, ?_⟩
  rintro (_ | alreadyBound) hpos
  · dsimp only
    rw [along_perform_bind]
    refine ⟨trivial, fun e _ => herr e _, ?_⟩
    rintro (_ | payment) -
    · exact hnone _
    · dsimp only
      rw [along_perform_bind]
      refine ⟨⟨hrep, List.mem_cons_of_mem _ (List.mem_cons_of_mem _ hno)⟩, fun e _ => herr e _,
        fun count _ => ?_⟩
      split
      · refine (along_perform _ _).mpr ⟨trivial, fun e _ => herr e _, ?_⟩
        rintro (_ | winner) hwin
        · exact hnone _
        · exact bound winner _ hwin
      · rename_i hcount
        rw [not_not.mp hcount]
        refine (along_perform _ _).mpr ⟨trivial, fun e _ => herr e _, ?_⟩
        rintro (_ | p) hp
        · exact hnone _
        · obtain ⟨u, w, -, hsel⟩ := hp.answered
          have hid : p.id = payment.id := by simpa [PaymentKey.selects] using hsel
          refine hsome p _ rfl (.inr (.inr ?_))
          rw [hid]
          exact List.mem_cons_of_mem _ List.mem_cons_self
  · exact bound alreadyBound _ hpos

theorem handleChargeSuccess_along {reference : String} {customerCode : Option String}
    {source : TrustedPaymentSource} (hrep : ReportsCharge env c reference) :
    Keeps env c (handleChargeSuccess reference customerCode source) done h := by
  unfold handleChargeSuccess
  rw [Keeps, along_perform_bind]
  refine ⟨trivial, fun _ _ => trivial, ?_⟩
  rintro (_ | hosted) hpos
  · dsimp only
    split
    · trivial
    · rw [along_bind]
      refine resolveDvaPayment_along hrep List.mem_cons_self (fun p h' hlast hours => ?_)
        (fun _ => trivial) fun _ _ => trivial
      exact keeps_bind (verifyAndProtectPayment_along hlast hours) fun _ _ => trivial
  · obtain ⟨u, w, -, hsel⟩ := hpos.answered
    exact keeps_bind (verifyAndProtectPayment_along rfl
      (.inl (by simpa [PaymentKey.selects] using hsel))) fun _ _ => trivial

/-! ## Webhooks -/

theorem route_along {rawBody signature : String} {payload : PaystackWebhookPayload}
    (hc : c = .paystackWebhook rawBody signature)
    (hsig : verifyWebhookSignature env rawBody signature = true)
    (hparse : env.parse rawBody = some payload) : Keeps env c (route payload) done h := by
  subst hc
  unfold route
  dsimp only
  split
  · rename_i hev
    split
    · rename_i reference href
      exact handleChargeSuccess_along ⟨hsig, payload, hparse, href, hev⟩
    · trivial
  · split
    · split
      · split
        · exact keeps_bind (attachDedicatedAccount_along _ _ _ _) fun _ _ => trivial
        · trivial
      · trivial
    · split
      · rename_i hev
        split
        · rename_i reference transferCode href hcode
          exact keeps_bind (markPaid_along (.inr (.inr ⟨hsig, payload, hparse, href, hcode, hev⟩)))
            fun _ _ => trivial
        · trivial
      · split
        · rename_i hev
          split
          · trivial
          · rename_i reference href
            exact keeps_bind (markFailed_along ⟨hsig, payload, hparse, href, hev⟩)
              fun _ _ => trivial
        · trivial

theorem recordEvent_along {payload : PaystackWebhookPayload} (hdel : Delivers env c payload) :
    Keeps env c (recordEvent payload) done h := by
  refine keeps_tryCatch ?_ fun e _ => ?_
  · rw [Keeps, along_perform_bind]
    exact ⟨⟨payload, hdel, rfl⟩, fun _ _ => trivial, fun _ _ => trivial⟩
  · split <;> trivial

theorem handlePaystackEvent_along {rawBody signature : String}
    (hc : c = .paystackWebhook rawBody signature) :
    Keeps env c (handlePaystackEvent env rawBody signature) done h := by
  unfold handlePaystackEvent
  split
  · trivial
  rename_i hsig
  split
  · trivial
  rename_i payload hparse
  refine keeps_bind (keeps_free (isStale_free _) fun _ _ _ => trivial) fun stale h₁ => ?_
  split
  · trivial
  have hsig : verifyWebhookSignature env rawBody signature = true := by simpa using hsig
  refine keeps_bind (recordEvent_along ⟨_, _, hc, hsig, hparse⟩) fun id h₂ => ?_
  cases id with
  | none => trivial
  | some webhookEventId =>
      refine keeps_tryCatch (keeps_bind (route_along hc hsig hparse)
        fun handled h₃ => ?_) fun e h₃ => ?_
      · exact keeps_bind (keeps_free (uses_perform trivial) fun _ _ _ => trivial)
          fun _ _ => trivial
      · exact keeps_bind (keeps_free (uses_perform trivial) fun _ _ _ => trivial)
          fun _ _ => trivial

/-! ## Every call -/

theorem createDraft_along (input : CreateDraftInput) : Keeps env c (createDraft input) done h := by
  unfold createDraft
  rw [Keeps, along_perform_bind]
  refine ⟨trivial, fun _ _ => trivial, fun uuid _ => ?_⟩
  rw [along_perform_bind]
  exact ⟨rfl, fun _ _ => trivial, fun tx _ =>
    keeps_bind (keeps_free (grantRoleFlag_free _ _) fun _ _ _ => trivial) fun _ _ => trivial⟩

/-! ## Releases -/

theorem keeps_perform {op : Op} (hop : op.isFree) : Keeps env c (await op) done h :=
  keeps_free (uses_perform hop) fun _ _ _ => trivial

theorem raise_along (input : RaiseDisputeInput) : Keeps env c (raise input) done h :=
  keeps_bind (apply_keeps rfl) fun _ _ => keeps_perform trivial

theorem resolve_along (input : ResolveDisputeInput) : Keeps env c (resolve input) done h := by
  refine keeps_bind (keeps_perform trivial) fun dispute h₁ => ?_
  cases dispute with
  | none => trivial
  | some dispute =>
      dsimp only
      split
      · trivial
      · refine keeps_bind (keeps_perform trivial) fun otherOpen h₂ => ?_
        refine keeps_bind (apply_keeps ?_) fun _ h₃ => ?_
        · unfold ResolveDisputeInput.event
          cases input.outcome <;> rfl
        · refine keeps_bind ?_ fun _ h₄ => keeps_perform trivial
          unfold enqueueResolved
          cases input.outcome with
          | release => exact keeps_perform trivial
          | refund => trivial

theorem confirm_along (id buyerId : Uuid) (reason : Option String) :
    Keeps env c (confirm id buyerId reason) done h := by
  refine keeps_bind (keeps_bind (keeps_perform trivial) fun tx h₁ => ?_) fun tx h₁ => ?_
  · cases tx <;> trivial
  · split
    · trivial
    · exact keeps_bind (apply_keeps rfl) fun _ _ =>
        keeps_bind (keeps_perform trivial) fun _ _ => trivial

theorem scanEach_along (windowMs now : Int) (candidates : List (Transaction × Option Int))
    (released : Nat) : Keeps env c (scanEach windowMs now candidates released) done h := by
  induction candidates generalizing h released with
  | nil => trivial
  | cons candidate rest ih =>
      obtain ⟨tx, _ | enteredAt⟩ := candidate
      · exact ih released
      · unfold scanEach
        split
        · exact ih released
        · refine keeps_bind (keeps_tryCatch ?_ fun _ _ => trivial) fun one _ => ih _
          exact keeps_bind (apply_keeps rfl) fun _ _ =>
            keeps_bind (keeps_perform trivial) fun _ _ => trivial

theorem scanAndRelease_along : Keeps env c (scanAndRelease env) done h :=
  keeps_bind (keeps_perform trivial) fun _ _ =>
    keeps_bind (keeps_perform trivial) fun _ _ => scanEach_along _ _ _ _

theorem processRelease_along (transactionId : Uuid) (hc : c.Releases) :
    Keeps env c (processRelease transactionId) done [] := by
  unfold processRelease
  rw [Keeps, along_perform_bind]
  refine ⟨trivial, fun _ _ => trivial, fun start _ => ?_⟩
  refine keeps_bind (keeps_tryCatch ?_ fun _ _ => trivial) fun executed _ => ?_
  · exact keeps_bind (executeRelease_along transactionId hc rfl) fun _ _ => trivial
  · split <;> exact keeps_perform trivial

/-! ## Invoices -/

theorem loadOwned_free (sellerId id : Uuid) : (Invoices.loadOwned sellerId id).Uses Op.isFree := by
  refine uses_bind (uses_bind (uses_perform trivial) fun invoice => ?_) fun invoice => ?_
  · cases invoice <;> trivial
  · split <;> trivial

theorem getById_free (id : Uuid) : (Invoices.getById id).Uses Op.isFree :=
  uses_bind (uses_perform trivial) fun invoice => by cases invoice <;> trivial

theorem keeps_uses {p : Program α} (hp : p.Uses Op.isFree) : Keeps env c p done h :=
  keeps_free hp fun _ _ _ => trivial

theorem edit_free (sellerId id : Uuid) (dto : UpdateInvoiceDto) :
    (Invoices.edit sellerId id dto).Uses Op.isFree := by
  refine uses_bind (loadOwned_free sellerId id) fun invoice => ?_
  split
  · trivial
  · split
    · refine uses_bind ?_ fun lines => uses_perform trivial
      unfold Invoices.effectiveLines
      split
      · trivial
      · exact uses_bind (uses_perform trivial) fun _ => trivial
    · exact uses_perform trivial

theorem getPublicView_free (publicViewId : String) :
    (Invoices.getPublicView publicViewId).Uses Op.isFree := by
  refine uses_bind (uses_perform trivial) fun invoice => ?_
  cases invoice with
  | none => trivial
  | some invoice =>
      dsimp only
      split
      · trivial
      · split
        · exact uses_bind (uses_perform trivial) fun _ => trivial
        · trivial

theorem void_along (sellerId id : Uuid) : Keeps env c (Invoices.void sellerId id) done h := by
  refine keeps_bind (keeps_uses (loadOwned_free sellerId id)) fun invoice h₁ => ?_
  split
  · trivial
  · refine keeps_bind ?_ fun _ h₂ => keeps_bind (keeps_perform trivial) fun _ _ =>
      keeps_bind (keeps_perform (by simp [Op.isFree, Invoices.audit])) fun _ _ => trivial
    unfold Invoices.cancelTransaction
    split
    · trivial
    · exact keeps_bind (apply_keeps rfl) fun _ _ => trivial

theorem send_along (sellerId id : Uuid) : Keeps env c (Invoices.send sellerId id) done h := by
  refine keeps_bind (keeps_uses (loadOwned_free sellerId id)) fun invoice h₁ => ?_
  split
  · trivial
  · split
    · trivial
    · refine keeps_bind (createDraft_along _) fun tx h₂ => ?_
      refine keeps_bind (apply_keeps rfl) fun _ h₃ => ?_
      refine keeps_bind (keeps_bind (keeps_perform trivial) fun _ _ => trivial) fun number h₄ => ?_
      refine keeps_bind (keeps_perform trivial) fun count h₅ => ?_
      split
      · exact keeps_uses (getById_free id)
      · exact keeps_bind (keeps_perform (by simp [Op.isFree, Invoices.audit])) fun _ _ =>
          keeps_bind (keeps_perform trivial) fun _ _ => keeps_uses (getById_free id)

/-- **Every admitted call keeps its promise.** -/
theorem code_justified {w : World} (hadm : admits env c w = true) :
    Keeps env c (code env c) done [] := by
  cases c with
  | create request =>
      simp only [code]
      split
      · trivial
      · exact keeps_map (createDraft_along _)
  | drive input =>
      exact keeps_map (apply_keeps hadm)
  | initializeCollection input => exact keeps_map (initializeCollection_along input)
  | initializeVirtualAccount transactionId buyerId email =>
      exact keeps_map (initializeVirtualAccount_along transactionId buyerId email)
  | verify reference => exact keeps_map (verifyAndProtect_along reference .serverVerify)
  | reconcilePending => exact keeps_map reconcilePending_along
  | paystackWebhook rawBody signature => exact keeps_map (handlePaystackEvent_along rfl)
  | executeRelease transactionId => exact keeps_map (executeRelease_along transactionId trivial rfl)
  | retryTransfer key adminId => exact keeps_map (retryTransfer_along key adminId rfl)
  | markPaid key code => exact keeps_map (markPaid_along (.inr (.inr ⟨rfl, rfl⟩)))
  | markFailed key status reason => exact keeps_map (markFailed_along rfl)
  | raiseDispute input => exact keeps_map (raise_along input)
  | resolveDispute input => exact keeps_map (resolve_along input)
  | confirm transactionId buyerId reason => exact keeps_map (confirm_along _ _ _)
  | scanAndRelease => exact keeps_map scanAndRelease_along
  | processRelease transactionId => exact keeps_map (processRelease_along transactionId trivial)
  | recoverStalled transactionId => exact keeps_map (keeps_perform trivial)
  | createInvoice sellerId dto =>
      exact keeps_map (keeps_bind (keeps_perform trivial) fun _ _ => keeps_perform trivial)
  | editInvoice sellerId id dto => exact keeps_map (keeps_uses (edit_free sellerId id dto))
  | viewInvoice publicViewId => exact keeps_map (keeps_uses (getPublicView_free publicViewId))
  | voidInvoice sellerId id => exact keeps_map (void_along sellerId id)
  | sendInvoice sellerId id => exact keeps_map (send_along sellerId id)
  | scanOverdue =>
      exact keeps_map (keeps_bind (keeps_perform trivial) fun _ _ => keeps_perform trivial)

end Meduman
