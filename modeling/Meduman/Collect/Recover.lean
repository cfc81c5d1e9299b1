import Meduman.Core.Served

/-!
# Recovery of a protection

A verification sets the payment to `SUCCESS` and then protects the transaction. Every later
verification of that payment returns early and heals the invoice only; the cron does not look at it
at all.

* `VerifyPath`, `VerifyPath.program` : the ways a payment is verified again
* `verifyAndProtectPayment_serves` : an undisturbed verification protects
* **`verify_recovers_iff`** : when a verification makes up for an interrupted one
* `verify_halfway` : when it does not
-/

set_option autoImplicit false

namespace Meduman

open Effect Prog

/-- A served operation; Paystack reports charges as successful for this amount. -/
def Reported (amount : Int) (o : Outcome) : Prop :=
  ∃ s, o = .served s ∧ s.status = "success" ∧ s.amount = amount

/-- The program ends, every charge being reported as successful for this amount. -/
abbrev ServesPaid {α : Type} (env : Env) (amount : Int) (p : Program α) (w : World)
    (r : Except Err α) (w' : World) : Prop := p.Ends (core env) (Reported amount) w r w'

/-- The transaction is protected. -/
def IsProtected (w : World) (id : Uuid) : Prop :=
  ∃ t ∈ w.transactions, t.id = id ∧ t.status = .paymentProtected

/-- A collected payment is attached to a transaction that still awaits payment. -/
def StaysAttached (w : World) (paymentId transactionId : Uuid) : Prop :=
  (∃ p ∈ w.payments, p.id = paymentId ∧ p.status = .success) ∧
    ∃ t ∈ w.transactions, t.id = transactionId ∧ t.status = .paymentPending

variable {env : Env} {w w' : World} {α : Type} {amount : Int}

theorem ServesPaid.serves {p : Program α} {r : Except Err α} (h : ServesPaid env amount p w r w') :
    Serves env p w r w' := h.mono fun _ ⟨s, hs, _⟩ => ⟨s, hs⟩

theorem servesPaid_await {op : Op} {f : op.Ans → Program α} {r : Except Err α}
    (h : ServesPaid env amount (await op >>= f) w r w') :
    ∃ s, s.status = "success" ∧ s.amount = amount ∧
      After (core env) (Reported amount) f (effect s w op).1 (effect s w op).2 r w' := by
  obtain ⟨a, u, hop, hf⟩ := (ends_bind _ _ _).mp h
  obtain ⟨o, ⟨s, rfl, hst, ham⟩, he⟩ := (ends_perform _ _).mp hop
  have he : (if op.fits s w then some (effect s w op) else none) = some (a, u) := he
  split at he
  · obtain ⟨rfl, rfl⟩ := Prod.ext_iff.mp (Option.some.inj he)
    exact ⟨s, hst, ham, hf⟩
  · cases he

/-- What follows a protection changes neither transactions nor payments. -/
theorem sameCore_of_quiet {p : Program α} (hp : p.Uses Op.isQuiet) {r : Except Err α}
    (h : ServesPaid env amount p w r w') : SameCore w w' :=
  Ends.keeps (V := core env) (R := SameCore) SameCore.refl SameCore.trans
    (fun hop he => sameCore_of_isQuiet hop he) hp h

theorem find_payment {p : Payment} (hp : p ∈ w.payments) (key : PaymentKey)
    (hsel : key.selects p = true) : w.payments.find key.selects = some p := by
  refine Table.find_eq hp hsel fun b hb hbs => Table.eq_of_clash hb hp ?_
  cases key <;> simp only [PaymentKey.selects, beq_iff_eq] at hsel hbs <;>
    simp [Constrained.clash, hsel, hbs]

/-! ## The verification core -/

/-- A collected payment is returned, and only its invoice is looked at. -/
theorem verifyAndProtectPayment_settled {p : Payment} {reference : String}
    {source : TrustedPaymentSource} (hst : p.status = .success) {r : Except Err Payment}
    (h : ServesPaid env amount (verifyAndProtectPayment p reference source) w r w') :
    SameCore w w' := by
  simp only [verifyAndProtectPayment, hst, if_true] at h
  obtain ⟨a, u, hmark, hrest⟩ := (ends_bind _ _ _).mp h
  have hsame := sameCore_of_quiet (markPaidByTransaction_quiet _) hmark
  cases a <;> rw [hrest.2] <;> exact hsame

theorem paymentUpdate_ok {p : Payment} (hp : p ∈ w.payments) (d : PaymentUpdate) :
    ∃ t, paymentUpdate p.id d w = (.ok (d.apply p), { w with payments := t }) := by
  obtain ⟨t, hwrite⟩ : ∃ t, w.payments.update (fun q => q.id == p.id) d.apply = some t := by
    refine Table.update_isSome fun a _ b _ => ?_
    split <;> split <;> rfl
  have hfind : (w.payments.find fun q => q.id == p.id) = some p :=
    find_payment hp (.id p.id) (by simp [PaymentKey.selects])
  exact ⟨t, by simp only [paymentUpdate, hfind, hwrite]⟩

/-- **An undisturbed verification protects.** -/
theorem verifyAndProtectPayment_serves {p : Payment} {t : Transaction} (hp : p ∈ w.payments)
    (ht : t ∈ w.transactions) (hid : t.id = p.transactionId) (hpending : t.status = .paymentPending)
    (hst : p.status ≠ .success) {reference : String} {source : TrustedPaymentSource}
    {r : Except Err Payment}
    (h : ServesPaid env p.amount (verifyAndProtectPayment p reference source) w r w') :
    IsProtected w' t.id := by
  simp only [verifyAndProtectPayment, hst, if_false] at h
  obtain ⟨s, hsucc, ham, h⟩ := servesPaid_await h
  simp only [effect, after_ok, hsucc, ham, ne_eq, not_true, if_false] at h
  obtain ⟨s', -, -, h⟩ := servesPaid_await h
  obtain ⟨payments, hupd⟩ := paymentUpdate_ok (w := { w with
    paystack := { w.paystack with verified := w.paystack.verified ++
      [⟨"success", p.amount, reference⟩] } }) hp
    { status := some .success, rawPayload := some ⟨"success", p.amount, reference⟩ }
  simp only [effect, hupd, after_ok] at h
  obtain ⟨a, u, happ, h⟩ := (ends_bind _ _ _).mp h
  have hmay : ∀ context, transition t.status (.paymentVerified source.source) context =
      .ok .paymentProtected := by
    intro context
    rw [hpending]
    cases source <;> rfl
  obtain ⟨⟨tx, rfl⟩, hflip⟩ := apply_serves (by exact ht) hid (fun _ => hmay _)
    (ServesPaid.serves happ)
  have hprot : IsProtected u t.id := by
    rw [IsProtected, hid]
    exact hflip.flipped
  obtain ⟨b, v, hmark, h⟩ := (ends_bind _ _ _).mp h
  have hsame := sameCore_of_quiet (markPaidByTransaction_quiet _) hmark
  rw [IsProtected, ← hsame.transactions] at hprot
  cases b with
  | error e => rw [h.2]; exact hprot
  | ok _ =>
      obtain ⟨c, z, hnotify, h⟩ := (ends_bind _ _ _).mp h
      have hsame' := sameCore_of_quiet (notifyProtected_quiet _) hnotify
      rw [← hsame'.transactions] at hprot
      cases c <;> rw [h.2] <;> exact hprot

/-! ## The paths -/

/-- A way to verify a payment again: the webhook of its own reference or of the charge bound to it,
the browser, the cron. -/
inductive VerifyPath
  | webhook (customerCode : Option String)
  | boundWebhook (chargeReference customerCode : String)
  | serverVerify
  | reconcile

/-- The path is one of this payment. -/
def VerifyPath.of (p : Payment) : VerifyPath → Prop
  | boundWebhook chargeReference customerCode =>
      p.providerChargeReference = some chargeReference ∧ customerCode ≠ ""
  | _ => True

def VerifyPath.program (p : Payment) : VerifyPath → Program Unit
  | webhook customerCode =>
      handleChargeSuccess p.providerReference customerCode .webhook >>= fun _ => pure ()
  | boundWebhook chargeReference customerCode =>
      handleChargeSuccess chargeReference (some customerCode) .webhook >>= fun _ => pure ()
  | serverVerify => verifyAndProtect p.providerReference .serverVerify >>= fun _ => pure ()
  | reconcile => reconcilePayment p.id >>= fun _ => pure ()

/-- The path verifies a payment in this status; the others it leaves alone. -/
def VerifyPath.verifies : VerifyPath → PaymentStatus → Prop
  | reconcile, s => s = .pending
  | _, s => s ≠ .success

/-- What follows a verification changes nothing. -/
theorem of_bind_pure {β : Type} {p : Program α} {f : α → Program β}
    (hf : ∀ a, ∃ b, f a = Prog.done (.ok b)) {r : Except Err β}
    (h : ServesPaid env amount (p >>= f) w r w') : ∃ a, ServesPaid env amount p w a w' := by
  obtain ⟨a, u, hp, hrest⟩ := (ends_bind _ _ _).mp h
  refine ⟨a, ?_⟩
  cases a with
  | error e => rw [hrest.2]; exact hp
  | ok a =>
      obtain ⟨b, hb⟩ := hf a
      rw [after_ok, hb] at hrest
      rw [hrest.2]
      exact hp

/-- The webhook of a payment's own reference verifies it. -/
theorem handleChargeSuccess_own {p : Payment} (hp : p ∈ w.payments) {customerCode : Option String}
    {r : Except Err Bool}
    (h : ServesPaid env amount (handleChargeSuccess p.providerReference customerCode .webhook)
      w r w') :
    ∃ a, ServesPaid env amount (verifyAndProtectPayment p p.providerReference .webhook) w a w' := by
  unfold handleChargeSuccess at h
  obtain ⟨s, -, -, h⟩ := servesPaid_await h
  simp only [effect, find_payment hp (.providerReference p.providerReference)
    (by simp [PaymentKey.selects]), after_ok] at h
  exact of_bind_pure (fun a => ⟨true, rfl⟩) h

/-- So does the webhook of the charge bound to it. -/
theorem handleChargeSuccess_bound (hw : Ground w) {p : Payment} (hp : p ∈ w.payments)
    {chargeReference customerCode : String}
    (hbound : p.providerChargeReference = some chargeReference) (hcode : customerCode ≠ "")
    {r : Except Err Bool}
    (h : ServesPaid env amount (handleChargeSuccess chargeReference (some customerCode) .webhook)
      w r w') :
    ∃ a, ServesPaid env amount (verifyAndProtectPayment p chargeReference .webhook) w a w' := by
  have hnone : w.payments.find (PaymentKey.providerReference chargeReference).selects = none := by
    refine List.find?_eq_none.mpr fun q hq hsel => ?_
    have hown : q.providerReference = chargeReference := by simpa [PaymentKey.selects] using hsel
    have hours := (hw.payments q hq).ours
    rw [hown, (hw.payments p hp).theirs _ hbound] at hours
    cases hours
  unfold handleChargeSuccess at h
  obtain ⟨s, -, -, h⟩ := servesPaid_await h
  simp only [effect, hnone, after_ok, truthy, Option.filter_some, hcode, ne_eq, not_false_iff,
    decide_true, if_true] at h
  obtain ⟨a, u, hresolve, hrest⟩ := (ends_bind _ _ _).mp h
  unfold resolveDvaPayment at hresolve
  obtain ⟨s', -, -, hresolve⟩ := servesPaid_await hresolve
  simp only [effect, find_payment hp (.providerChargeReference chargeReference)
    (by simp [PaymentKey.selects, hbound]), after_ok] at hresolve
  obtain ⟨rfl, rfl⟩ := hresolve
  exact of_bind_pure (fun a => ⟨true, rfl⟩) hrest

/-- **Every path comes down to the core, or leaves the payment alone.** -/
theorem VerifyPath.program_serves (hw : Ground w) {p : Payment} (hp : p ∈ w.payments)
    {path : VerifyPath} (hpath : path.of p) {r : Except Err Unit}
    (h : ServesPaid env amount (path.program p) w r w') :
    (path.verifies p.status ∧ ∃ reference source a,
      ServesPaid env amount (verifyAndProtectPayment p reference source) w a w') ∨
    (¬ path.verifies p.status ∧ SameCore w w') := by
  have core {reference : String} {source : TrustedPaymentSource} {a : Except Err Payment}
      (hcore : ServesPaid env amount (verifyAndProtectPayment p reference source) w a w') :
      (p.status ≠ .success ∧ ∃ reference source a,
        ServesPaid env amount (verifyAndProtectPayment p reference source) w a w') ∨
      (¬ p.status ≠ .success ∧ SameCore w w') := by
    by_cases hst : p.status = .success
    · exact .inr ⟨fun hne => hne hst, verifyAndProtectPayment_settled hst hcore⟩
    · exact .inl ⟨hst, _, _, _, hcore⟩
  cases path with
  | webhook customerCode =>
      obtain ⟨b, h⟩ := of_bind_pure (fun _ => ⟨(), rfl⟩) h
      obtain ⟨c, h⟩ := handleChargeSuccess_own hp h
      exact core h
  | boundWebhook chargeReference customerCode =>
      obtain ⟨b, h⟩ := of_bind_pure (fun _ => ⟨(), rfl⟩) h
      obtain ⟨c, h⟩ := handleChargeSuccess_bound hw hp hpath.1 hpath.2 h
      exact core h
  | serverVerify =>
      obtain ⟨b, h⟩ := of_bind_pure (fun _ => ⟨(), rfl⟩) h
      unfold verifyAndProtect at h
      obtain ⟨s, -, -, h⟩ := servesPaid_await h
      simp only [effect, find_payment hp (.providerReference p.providerReference)
        (by simp [PaymentKey.selects]), after_ok] at h
      exact core h
  | reconcile =>
      obtain ⟨b, h⟩ := of_bind_pure (fun _ => ⟨(), rfl⟩) h
      unfold reconcilePayment at h
      obtain ⟨s, -, -, h⟩ := servesPaid_await h
      simp only [effect, find_payment hp (.id p.id) (by simp [PaymentKey.selects]),
        after_ok] at h
      by_cases hst : p.status = .pending
      · simp only [hst, ne_eq, not_true, if_false] at h
        exact .inl ⟨hst, _, _, b, h⟩
      · simp only [hst, ne_eq, not_false_iff, if_true] at h
        obtain ⟨-, rfl⟩ := h
        exact .inr ⟨hst, .refl _⟩

theorem VerifyPath.ne_success_of_verifies {path : VerifyPath} {s : PaymentStatus}
    (h : path.verifies s) : s ≠ .success := by
  rintro rfl
  cases path with
  | reconcile => cases h
  | _ => exact h rfl

/-- **Protection recovers from a crash.** In every reachable world, for a payment of a transaction
that awaits payment, whose charge Paystack reports as successful for the exact amount: verifying it
again protects the transaction exactly when the path verifies a payment in its status, and leaves
no collected payment attached exactly when the payment is not collected yet. -/
theorem verify_recovers_iff {x : Config (core env)} (hx : Reachable env Guard.free x) {p : Payment}
    {t : Transaction} (hp : p ∈ World.payments x.world) (ht : t ∈ World.transactions x.world)
    (hid : t.id = p.transactionId) (hpending : t.status = .paymentPending) {path : VerifyPath}
    (hpath : path.of p) {r : Except Err Unit}
    (h : ServesPaid env p.amount (path.program p) x.world r w') :
    (IsProtected w' t.id ↔ path.verifies p.status) ∧
      (¬ StaysAttached w' p.id t.id ↔ p.status ≠ .success) := by
  rcases path.program_serves hx.ground hp hpath h with ⟨hver, reference, source, a, hcore⟩ |
    ⟨hver, hsame⟩
  · have hst := VerifyPath.ne_success_of_verifies hver
    have hprot := verifyAndProtectPayment_serves hp ht hid hpending hst hcore
    refine ⟨⟨fun _ => hver, fun _ => hprot⟩, fun _ => hst, fun _ => ?_⟩
    rintro ⟨-, t', ht', hid', hst'⟩
    obtain ⟨t'', ht'', hid'', hst''⟩ := hprot
    have heq : t' = t'' := Table.eq_of_clash ht' ht'' (by simp [Constrained.clash, hid', hid''])
    rw [heq, hst''] at hst'
    cases hst'
  · refine ⟨⟨fun hprot => ?_, fun hver' => absurd hver' hver⟩, not_congr ⟨?_, fun hst => ?_⟩⟩
    · obtain ⟨t', ht', hid', hst⟩ := hprot
      rw [hsame.transactions] at ht'
      have heq : t' = t := Table.eq_of_clash ht' ht (by simp [Constrained.clash, hid'])
      rw [heq, hpending] at hst
      cases hst
    · rintro ⟨⟨q, hq, hqid, hst⟩, -⟩
      rw [hsame.payments] at hq
      have heq : q = p := Table.eq_of_clash hq hp (by simp [Constrained.clash, hqid])
      rw [← heq]
      exact hst
    · rw [StaysAttached, hsame.payments, hsame.transactions]
      exact ⟨⟨p, hp, rfl, hst⟩, t, ht, rfl, hpending⟩

namespace Demo

variable (env : Env)

/-- A verification is cut off after it wrote the payment. -/
def unprotected : List (Label (core env)) :=
  checkout env ++ [.arrive (.verify reference), serve env 3, verified env 3, serve env 3, .crash 3]

/-- The verification, served. -/
def verifyAgain (w : World) : Option (Except Err Unit × World) :=
  serveWith (verifyAndProtect reference .serverVerify >>= fun _ => pure ())
    (List.replicate 9 { id := sale, status := "success", amount := 1000 }) w

/-- The payments with their references, and the transactions, with their statuses. -/
def collections (w : World) :
    List (Uuid × String × Int × PaymentStatus) × List (Uuid × TransactionStatus) :=
  (w.payments.rows.map fun p => (p.transactionId, p.providerReference, p.amount, p.status),
    w.transactions.rows.map fun t => (t.id, t.status))

end Demo

/-- A world with one collection, verified again in the browser. -/
theorem of_collections {s : PaymentStatus} {s' : TransactionStatus}
    (h : Demo.collections w = ([(Demo.sale, Demo.reference, 1000, s)], [(Demo.sale, s')]))
    {r : Except Err Unit} (hagain : Demo.verifyAgain w = some (r, w')) :
    ∃ p ∈ w.payments, ∃ t ∈ w.transactions, t.id = p.transactionId ∧ p.status = s ∧
      t.status = s' ∧ (∀ t' ∈ w.transactions, t'.status = s') ∧
      ServesPaid env p.amount (VerifyPath.serverVerify.program p) w r w' := by
  obtain ⟨hpayments, htransactions⟩ := Prod.mk.inj h
  obtain ⟨⟨p, hp, hpr⟩, -⟩ := Table.of_map_eq_singleton hpayments
  obtain ⟨⟨t, ht, htr⟩, hall⟩ := Table.of_map_eq_singleton htransactions
  simp only [Prod.mk.injEq] at hpr htr
  obtain ⟨hptx, href, ham, hst⟩ := hpr
  refine ⟨p, hp, t, ht, htr.1.trans hptx.symm, hst, htr.2,
    fun t' ht' => (Prod.mk.inj (hall t' ht')).2, ?_⟩
  rw [ham, VerifyPath.program, href]
  refine ends_of_serveWith (fun s hs => ⟨s, rfl, ?_⟩) hagain
  rw [List.eq_of_mem_replicate hs]
  exact ⟨rfl, rfl⟩

set_option maxRecDepth 20000 in
/-- **A verification cut off halfway is not made up for.** -/
theorem verify_halfway : ¬ ∀ (env : Env) (x : Config (core env)) (p : Payment) (t : Transaction)
    (path : VerifyPath) (r : Except Err Unit) (w' : World), Reachable env Guard.free x →
    p ∈ World.payments x.world → t ∈ World.transactions x.world → t.id = p.transactionId →
    t.status = .paymentPending → path.of p → ServesPaid env p.amount (path.program p) x.world r w' →
    IsProtected w' t.id ∧ ¬ StaysAttached w' p.id t.id := by
  intro hall
  have hrun : ((Config.run Guard.free (Demo.unprotected Demo.silent) ⟨World.initial, []⟩).map
      fun x => decide (Demo.collections x.world =
          ([(Demo.sale, Demo.reference, 1000, .success)], [(Demo.sale, .paymentPending)])) &&
        (Demo.verifyAgain x.world).any fun rw => decide (Demo.collections rw.2 =
          ([(Demo.sale, Demo.reference, 1000, .success)], [(Demo.sale, .paymentPending)]))) =
      some true := by decide
  obtain ⟨x, hx, htest⟩ := reachable_of_run hrun
  simp only [Bool.and_eq_true, decide_eq_true_eq, Option.any_eq_true] at htest
  obtain ⟨hrows, ⟨r, w'⟩, hagain, hrows'⟩ := htest
  obtain ⟨p, hp, t, ht, hid, -, hpending, -, hserve⟩ := of_collections hrows hagain
  obtain ⟨⟨t', ht', -, hst⟩, -⟩ := hall _ x p t .serverVerify r w' hx hp ht hid hpending trivial hserve
  rw [(Prod.mk.inj ((Table.of_map_eq_singleton (Prod.mk.inj hrows').2).2 t' ht')).2] at hst
  cases hst

set_option maxRecDepth 20000 in
/-- The verification of a pending payment protects the sale. -/
theorem verify_recovers_iff_sale : ∃ (x : Config (core Demo.silent)) (w' : World) (p : Payment)
    (t : Transaction), Reachable _ Guard.free x ∧ p ∈ World.payments x.world ∧
      p.status = .pending ∧ IsProtected w' t.id := by
  have hrun : ((Config.run Guard.free (Demo.checkout Demo.silent) ⟨World.initial, []⟩).map
      fun x => decide (Demo.collections x.world =
          ([(Demo.sale, Demo.reference, 1000, .pending)], [(Demo.sale, .paymentPending)])) &&
        (Demo.verifyAgain x.world).isSome) = some true := by decide
  obtain ⟨x, hx, htest⟩ := reachable_of_run hrun
  simp only [Bool.and_eq_true, decide_eq_true_eq, Option.isSome_iff_exists] at htest
  obtain ⟨hrows, ⟨r, w'⟩, hagain⟩ := htest
  obtain ⟨p, hp, t, ht, hid, hst, hpending, -, hserve⟩ := of_collections hrows hagain
  have hown : VerifyPath.serverVerify.of p := trivial
  have hprot := (verify_recovers_iff hx hp ht hid hpending hown hserve).1.mpr
    (by rw [hst]; exact PaymentStatus.noConfusion)
  exact ⟨x, w', p, t, hx, hp, hst, hprot⟩

end Meduman
