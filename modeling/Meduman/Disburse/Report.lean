import Meduman.Disburse.Settle
import Meduman.Webhook.Received

/-!
# Transfer reports

A retry sends its transfer under a reference of its own. The webhook that reports the transfer is
routed by that reference to a payout, and payouts are looked up by their key.

* `Reports` : an authentic, fresh, unseen report about a transfer
* `no_payout_under` : no payout is found under a retry's reference
* **`transfer_report_iff`** : which reports reach their payout
* `transfer_report_lost` : the report of a retry does not
-/

set_option autoImplicit false

namespace Meduman

open Effect Prog

/-- An authentic, fresh webhook about transfer `sent`, no event of its key being recorded. -/
structure Reports (env : Env) (w : World) (rawBody signature : String)
    (payload : PaystackWebhookPayload) (sent : Transfer) : Prop where
  signed : verifyWebhookSignature env rawBody signature = true
  parsed : env.parse rawBody = some payload
  authentic : authentic payload w = true
  reference : truthy payload.dataOrEmpty.reference = some sent.reference
  fresh : staleAt env payload w.clock = false
  unseen : ¬ Recorded (eventKey payload) w

/-- The event that reports a failure. -/
def FailedStatus.event : FailedStatus → String
  | failed => "transfer.failed"
  | reversed => "transfer.reversed"

/-- The payout has this status. -/
def HasStatus (w : World) (id : Uuid) (s : PayoutStatus) : Prop :=
  ∃ p ∈ w.payouts, p.id = id ∧ p.status = s

variable {env : Env} {w w' : World} {payload : PaystackWebhookPayload}

theorem hasStatus_iff {p : Payout} {s : PayoutStatus} (hp : p ∈ w.payouts)
    (h : w'.payouts = w.payouts) : HasStatus w' p.id s ↔ p.status = s := by
  constructor
  · rintro ⟨q, hq, hid, hst⟩
    rw [h] at hq
    have heq : q = p := Table.eq_of_clash hq hp (by simp [Constrained.clash, hid])
    rw [← heq]
    exact hst
  · exact fun hst => ⟨p, by rw [h]; exact hp, rfl, hst⟩

/-! ## Routing -/

theorem route_settled {reference : String} (hev : payload.event = "transfer.success")
    (href : truthy payload.dataOrEmpty.reference = some reference) :
    route payload = match truthy payload.dataOrEmpty.transferCode with
      | some code => markPaid reference code >>= fun _ => pure true
      | none => pure false := by
  simp only [route, hev, String.reduceEq, if_true, if_false, href]
  cases truthy payload.dataOrEmpty.transferCode <;> rfl

theorem route_failed {reference : String} {status : FailedStatus}
    (hev : payload.event = status.event)
    (href : truthy payload.dataOrEmpty.reference = some reference) :
    route payload =
      markFailed reference status (failureReason payload) >>= fun _ => pure true := by
  cases status <;>
    simp only [FailedStatus.event] at hev <;>
    simp only [route, hev, String.reduceEq, if_true, if_false, href, or_true, or_false]

/-! ## Payouts that are not found -/

/-- A transfer of a payout's transaction was sent under one of the payout's references. -/
theorem isReference_of_sent (hw : Ground w) {id : Uuid} {sent : Transfer}
    (hsent : sent ∈ w.paystack.transfers) (hreason : sent.reason = transferReason id) :
    IsReference (releaseIdempotencyKey id) sent.reference := by
  obtain ⟨q, hq, hreason', -, href, -⟩ := (hw.transfers sent hsent).payout
  have hid := transferReason_injective (hreason'.symm.trans hreason)
  rw [(hw.payouts q hq).key, hid] at href
  exact href

/-- **No payout is found under a retry's reference.** -/
theorem no_payout_under (hw : Ground w) {p : Payout} (hp : p ∈ w.payouts) {sent : Transfer}
    (hsent : sent ∈ w.paystack.transfers) (hreason : sent.reason = transferReason p.transactionId)
    (hretry : sent.reference ≠ p.idempotencyKey) :
    ∀ q ∈ w.payouts, q.idempotencyKey ≠ sent.reference := by
  intro q hq hkey
  have hown := isReference_of_sent hw hsent hreason
  have hid : q.transactionId = p.transactionId :=
    isReference_injective (.inl (hkey.symm.trans (hw.payouts q hq).key)) hown
  rw [← hkey, (hw.payouts q hq).key, (hw.payouts p hp).key, hid] at hretry
  exact hretry rfl

theorem markPaid_missing {key code : String} (hno : ∀ q ∈ w.payouts, q.idempotencyKey ≠ key)
    {r : Except Err Payout} (h : Serves env (markPaid key code) w r w') :
    (∃ e, r = .error e) ∧ w' = w := by
  unfold markPaid at h
  obtain ⟨s, -, h⟩ := serves_await h
  simp only [effect, find_payout_none hno, after_ok] at h
  exact ⟨⟨_, h.1⟩, h.2⟩

theorem markFailed_missing {key reason : String} {status : FailedStatus}
    (hno : ∀ q ∈ w.payouts, q.idempotencyKey ≠ key) {r : Except Err Payout}
    (h : Serves env (markFailed key status reason) w r w') : (∃ e, r = .error e) ∧ w' = w := by
  unfold markFailed at h
  obtain ⟨s, -, h⟩ := serves_await h
  simp only [effect, find_payout_none hno, after_ok] at h
  exact ⟨⟨_, h.1⟩, h.2⟩

/-- A settled payout is left alone. -/
theorem markFailed_settled {p : Payout} (hp : p ∈ w.payouts) (hst : p.status = .success)
    {reason : String} {status : FailedStatus} {r : Except Err Payout}
    (h : Serves env (markFailed p.idempotencyKey status reason) w r w') : r = .ok p ∧ w' = w := by
  unfold markFailed at h
  obtain ⟨s, -, h⟩ := serves_await h
  simp only [effect, find_payout hp rfl, after_ok, hst, if_true] at h
  exact h

/-- An unsettled one is marked. -/
theorem markFailed_serves {p : Payout} (hp : p ∈ w.payouts) (hst : p.status ≠ .success)
    {reason : String} {status : FailedStatus} {r : Except Err Payout}
    (h : Serves env (markFailed p.idempotencyKey status reason) w r w') :
    (∃ q, r = .ok q) ∧ HasStatus w' p.id status.status := by
  unfold markFailed at h
  obtain ⟨s, -, h⟩ := serves_await h
  simp only [effect, find_payout hp rfl, after_ok, hst, if_false] at h
  obtain ⟨s', -, h⟩ := serves_await h
  obtain ⟨payouts, hupd, hmem⟩ := payoutUpdate_ok hp
    (d := { status := some status.status, lastError := some (some reason) }) rfl
    (fun code hc => by cases hc)
  simp only [effect, hupd, after_ok] at h
  obtain ⟨s'', -, h⟩ := serves_await h
  obtain ⟨rfl, rfl⟩ := h
  exact ⟨⟨_, rfl⟩, _, hmem, rfl, rfl⟩

/-! ## Reports -/

/-- The report names the code of its transfer. -/
theorem code_of_authentic (hw : Ground w) {sent : Transfer} (hsent : sent ∈ w.paystack.transfers)
    (hauth : authentic payload w = true) (hev : payload.event = "transfer.success")
    (href : truthy payload.dataOrEmpty.reference = some sent.reference) {code : String}
    (hcode : truthy payload.dataOrEmpty.transferCode = some code) : code = sent.transferCode := by
  simp only [authentic, href, hev, String.reduceEq, if_true, if_false, hcode] at hauth
  obtain ⟨t, ht, heq⟩ := List.any_eq_true.mp hauth
  simp only [Bool.and_eq_true, beq_iff_eq, Option.all_some] at heq
  rw [heq.2, hw.transfer_eq ht hsent heq.1.1]

/-- A report of success. -/
theorem settled_report_iff (hw : Ground w) {p : Payout} {t : Transaction} {sent : Transfer}
    (hp : p ∈ w.payouts) (ht : t ∈ w.transactions) (hid : t.id = p.transactionId)
    (hsent : sent ∈ w.paystack.transfers) (hreason : sent.reason = transferReason p.transactionId)
    {rawBody signature : String} (hrep : Reports env w rawBody signature payload sent)
    (hev : payload.event = "transfer.success") (hrel : t.status = .releaseProcessing)
    {r : Except Err WebhookResult} (h : Serves env (receive env payload) w r w') :
    (PaidOut w' p.id ∧ IsCompleted w' t.id ↔ sent.reference = p.idempotencyKey ∧
      p.status ≠ .success ∧ (truthy payload.dataOrEmpty.transferCode).isSome = true) := by
  obtain ⟨events, a, v, hroute, -, hsame⟩ :=
    receive_new (fun _ ho => ho) hrep.fresh hrep.unseen h
  rw [route_settled hev hrep.reference] at hroute
  -- a report that changes no transaction leaves this one being released
  have unchanged : v.transactions = w.transactions → ¬ IsCompleted w' t.id := by
    rintro hv ⟨t', ht', hid', hst⟩
    rw [hsame.transactions, hv] at ht'
    have heq : t' = t := Table.eq_of_clash ht' ht (by simp [Constrained.clash, hid'])
    rw [heq, hrel] at hst
    cases hst
  cases hcode : truthy payload.dataOrEmpty.transferCode with
  | none =>
      rw [hcode] at hroute
      obtain ⟨-, rfl⟩ := hroute
      exact ⟨fun hdone => absurd hdone.2 (unchanged rfl), fun hcond => by cases hcond.2.2⟩
  | some code =>
      rw [hcode] at hroute
      obtain ⟨b, v', hpaid, hroute⟩ := (ends_bind _ _ _).mp hroute
      have hv : v = v' := by cases b <;> exact hroute.2
      subst hv
      by_cases hkey : sent.reference = p.idempotencyKey
      · rw [hkey] at hpaid
        by_cases hst : p.status = .success
        · obtain ⟨-, rfl⟩ := markPaid_settled (w := { w with webhookEvents := events }) hp hst hpaid
          exact ⟨fun hdone => absurd hdone.2 (unchanged rfl), fun hcond => absurd hst hcond.2.1⟩
        · have hsource := code_of_authentic hw hsent hrep.authentic hev hrep.reference hcode
          have huniq := code_unique hw hp hsent hreason
          rw [← hsource] at huniq
          obtain ⟨hpaid, hcomp⟩ := markPaid_serves (w := { w with webhookEvents := events })
            hp ht hid (.inl hrel) hst huniq hpaid
          rw [PaidOut, ← hsame.payouts] at hpaid
          rw [IsCompleted, ← hsame.transactions] at hcomp
          exact ⟨fun _ => ⟨hkey, hst, rfl⟩, fun _ => ⟨hpaid, hcomp⟩⟩
      · obtain ⟨-, rfl⟩ := markPaid_missing (w := { w with webhookEvents := events })
          (no_payout_under hw hp hsent hreason hkey) hpaid
        exact ⟨fun hdone => absurd hdone.2 (unchanged rfl), fun hcond => absurd hcond.1 hkey⟩

/-- A report of failure. -/
theorem failed_report_iff (hw : Ground w) {p : Payout} {sent : Transfer} (hp : p ∈ w.payouts)
    (hsent : sent ∈ w.paystack.transfers) (hreason : sent.reason = transferReason p.transactionId)
    {rawBody signature : String} (hrep : Reports env w rawBody signature payload sent)
    {status : FailedStatus} (hev : payload.event = status.event)
    {r : Except Err WebhookResult} (h : Serves env (receive env payload) w r w') :
    (HasStatus w' p.id status.status ↔
      (sent.reference = p.idempotencyKey ∧ p.status ≠ .success) ∨ p.status = status.status) := by
  obtain ⟨events, a, v, hroute, -, hsame⟩ :=
    receive_new (fun _ ho => ho) hrep.fresh hrep.unseen h
  rw [route_failed hev hrep.reference] at hroute
  obtain ⟨b, v', hfailed, hroute⟩ := (ends_bind _ _ _).mp hroute
  have hv : v = v' := by cases b <;> exact hroute.2
  subst hv
  by_cases hkey : sent.reference = p.idempotencyKey
  · rw [hkey] at hfailed
    by_cases hst : p.status = .success
    · obtain ⟨-, hv⟩ := markFailed_settled (w := { w with webhookEvents := events }) hp hst hfailed
      subst hv
      rw [hasStatus_iff hp hsame.payouts]
      exact ⟨.inr, fun hcond => hcond.resolve_left fun hopen => hopen.2 hst⟩
    · obtain ⟨-, hmarked⟩ :=
        markFailed_serves (w := { w with webhookEvents := events }) hp hst hfailed
      rw [HasStatus, ← hsame.payouts] at hmarked
      exact ⟨fun _ => .inl ⟨hkey, hst⟩, fun _ => hmarked⟩
  · obtain ⟨-, rfl⟩ := markFailed_missing (w := { w with webhookEvents := events })
      (no_payout_under hw hp hsent hreason hkey) hfailed
    rw [hasStatus_iff hp hsame.payouts]
    exact ⟨.inr, fun hcond => hcond.resolve_left fun hopen => hkey hopen.1⟩

/-- **Transfer reports.** In every reachable world, for every transfer sent for a payout: the report
of its success settles the payout and completes the transaction being released exactly when the
transfer was sent under the payout's key, the payout is not settled and the report names a code; the
report of its failure marks the payout exactly when the transfer was sent under the key and the payout
is not settled, or it had that status. -/
theorem transfer_report_iff {x : Config (core env)} (hx : Reachable env Guard.free x) {p : Payout}
    {t : Transaction} {sent : Transfer} (hp : p ∈ World.payouts x.world)
    (ht : t ∈ World.transactions x.world) (hid : t.id = p.transactionId)
    (hsent : sent ∈ (World.paystack x.world).transfers)
    (hreason : sent.reason = transferReason p.transactionId) {rawBody signature : String}
    (hrep : Reports env x.world rawBody signature payload sent) {r : Except Err WebhookResult}
    (h : Serves env (handlePaystackEvent env rawBody signature) x.world r w') :
    (payload.event = "transfer.success" → t.status = .releaseProcessing →
      (PaidOut w' p.id ∧ IsCompleted w' t.id ↔ sent.reference = p.idempotencyKey ∧
        p.status ≠ .success ∧ (truthy payload.dataOrEmpty.transferCode).isSome = true)) ∧
    ∀ status : FailedStatus, payload.event = status.event →
      (HasStatus w' p.id status.status ↔
        (sent.reference = p.idempotencyKey ∧ p.status ≠ .success) ∨ p.status = status.status) := by
  rw [handlePaystackEvent_eq hrep.signed hrep.parsed] at h
  exact ⟨fun hev hrel => settled_report_iff hx.ground hp ht hid hsent hreason hrep hev hrel h,
    fun status hev => failed_report_iff hx.ground hp hsent hreason hrep hev h⟩

namespace Demo

/-- The report that the transfer under this reference succeeded. -/
def settledPayload (reference : String) : PaystackWebhookPayload where
  event := "transfer.success"
  data := some ⟨some (.num 7), some reference, some "TRF_1", none, none, none, none, none, none, none⟩

/-- A configuration in which a report's body is the reference it is about. -/
def reporting : Env := config fun body => some (settledPayload body)

/-- The report of `reference`, served in world `w`. -/
def report (reference : String) (w : World) : Option (Except Err WebhookResult × World) :=
  serveWith (handlePaystackEvent reporting reference "ab") (List.replicate 6 { id := sale }) w

/-- A transfer of the sale under this reference was sent, and its report is authentic and unseen. -/
def reportable (reference : String) (w : World) : Bool :=
  (w.paystack.transfers.any fun t => t.reference == reference && t.reason == transferReason sale) &&
    authentic (settledPayload reference) w &&
    w.webhookEvents.rows.all fun e => e.providerEventId != eventKey (settledPayload reference)

/-- A release whose transfer, with the code the report names, succeeds. -/
def transferredOnce (env : Env) : List (Label (core env)) :=
  checkout env ++ delivery env ++ .arrive (.executeRelease sale) :: serves env 7 2 ++
  [serve env 7 { id := Demo.release }, serve env 7, serve env 7 { id := sale, code := "TRF_1" },
    .drift (.settle (releaseIdempotencyKey sale))]

end Demo

theorem reports_of_reportable {reference : String} (href : reference ≠ "")
    (h : Demo.reportable reference w = true) :
    ∃ sent ∈ w.paystack.transfers, sent.reference = reference ∧
      sent.reason = transferReason Demo.sale ∧
      Reports Demo.reporting w reference "ab" (Demo.settledPayload reference) sent := by
  simp only [Demo.reportable, Bool.and_eq_true, List.any_eq_true, beq_iff_eq, List.all_eq_true,
    bne_iff_ne] at h
  obtain ⟨⟨⟨sent, hsent, rfl, hreason⟩, hauth⟩, hunseen⟩ := h
  have hsig : ("ab" != "" && Text.unhex "ab".toList == Text.unhex "ab".toList) = true := by decide
  refine ⟨sent, hsent, rfl, hreason, hsig, rfl, hauth, ?_, rfl, ?_⟩
  · simp [Demo.settledPayload, PaystackWebhookPayload.dataOrEmpty, truthy, href]
  · rintro ⟨e, he, hkey⟩
    exact hunseen e he hkey

set_option maxRecDepth 20000 in
/-- **The report of a retry's success is lost.** -/
theorem transfer_report_lost : ¬ ∀ (env : Env) (x : Config (core env)) (p : Payout) (t : Transaction)
    (sent : Transfer) (rawBody signature : String) (payload : PaystackWebhookPayload) (w' : World)
    (r : Except Err WebhookResult), Reachable env Guard.free x → p ∈ World.payouts x.world →
    t ∈ World.transactions x.world → t.id = p.transactionId →
    sent ∈ (World.paystack x.world).transfers → sent.reason = transferReason p.transactionId →
    Reports env x.world rawBody signature payload sent →
    Serves env (handlePaystackEvent env rawBody signature) x.world r w' →
    (payload.event = "transfer.success" → t.status = .releaseProcessing →
      PaidOut w' p.id ∧ IsCompleted w' t.id) ∧
    ∀ status : FailedStatus, payload.event = status.event → p.status ≠ .success →
      HasStatus w' p.id status.status := by
  intro hall
  have hrun : ((Config.run Guard.free (Demo.oneRetry Demo.reporting) ⟨World.initial, []⟩).map
      fun x => decide (Demo.rows x.world = ([(Demo.sale, releaseIdempotencyKey Demo.sale, .pending)],
          [(Demo.sale, .releaseProcessing)])) &&
        Demo.reportable (retryReference (releaseIdempotencyKey Demo.sale) 2) x.world &&
        (Demo.report (retryReference (releaseIdempotencyKey Demo.sale) 2) x.world).any fun rw =>
          decide (Demo.rows rw.2 = ([(Demo.sale, releaseIdempotencyKey Demo.sale, .pending)],
            [(Demo.sale, .releaseProcessing)]))) = some true := by decide
  obtain ⟨x, hx, htest⟩ := reachable_of_run hrun
  simp only [Bool.and_eq_true, decide_eq_true_eq, Option.any_eq_true] at htest
  obtain ⟨⟨hrows, hrep⟩, ⟨r, w'⟩, hserve, hrows'⟩ := htest
  obtain ⟨⟨p, hp, hptx, -, -⟩, ⟨t, ht, hid, hrel⟩, -⟩ := of_rows hrows
  obtain ⟨sent, hsent, -, hreason, hrep⟩ := reports_of_reportable (by decide) hrep
  rw [← hptx] at hid hreason
  obtain ⟨-, t', ht', -, hst⟩ := (hall _ x p t sent _ _ _ w' r hx hp ht hid hsent hreason hrep
    (serves_of_serveWith hserve)).1 rfl hrel
  rw [(of_rows hrows').2.2 t' ht'] at hst
  cases hst

set_option maxRecDepth 20000 in
/-- The report of a first transfer settles the sale. -/
theorem transfer_report_iff_sale : ∃ (x : Config (core Demo.reporting)) (w' : World) (p : Payout)
    (t : Transaction), Reachable _ Guard.free x ∧ p ∈ World.payouts x.world ∧
      PaidOut w' p.id ∧ IsCompleted w' t.id := by
  have hrun : ((Config.run Guard.free (Demo.transferredOnce Demo.reporting)
      ⟨World.initial, []⟩).map fun x =>
        decide (Demo.rows x.world = ([(Demo.sale, releaseIdempotencyKey Demo.sale, .pending)],
          [(Demo.sale, .releaseProcessing)])) &&
        Demo.reportable (releaseIdempotencyKey Demo.sale) x.world &&
        (Demo.report (releaseIdempotencyKey Demo.sale) x.world).isSome) = some true := by decide
  obtain ⟨x, hx, htest⟩ := reachable_of_run hrun
  simp only [Bool.and_eq_true, decide_eq_true_eq, Option.isSome_iff_exists] at htest
  obtain ⟨⟨hrows, hrep⟩, ⟨r, w'⟩, hserve⟩ := htest
  obtain ⟨⟨p, hp, hptx, hkey, hst⟩, ⟨t, ht, hid, hrel⟩, -⟩ := of_rows hrows
  obtain ⟨sent, hsent, href, hreason, hrep⟩ := reports_of_reportable (by decide) hrep
  rw [← hptx] at hid hreason
  obtain ⟨hpaid, hcomp⟩ := ((transfer_report_iff hx hp ht hid hsent hreason hrep
    (serves_of_serveWith hserve)).1 rfl hrel).mpr
      ⟨href.trans hkey.symm, by rw [hst]; exact PayoutStatus.noConfusion, rfl⟩
  exact ⟨x, w', p, t, hx, hp, hpaid, hcomp⟩

end Meduman
