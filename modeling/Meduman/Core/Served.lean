import Meduman.Core.Outline

/-!
# Undisturbed calls

What the service functions do when every operation they await is served and nothing else happens in
between: one lemma for each, which the results on recovery and on webhooks rest on.

* `Serves` : an undisturbed, served run of a program
* `apply_serves`, `apply_rejects` : a permitted transition, and a rejected one
* `markPaid_serves`, `markFailed_serves` : the settlement of a payout
-/

set_option autoImplicit false

namespace Meduman

open Effect Prog

/-- The outcome is an answer. -/
def Served (o : Outcome) : Prop := ∃ s, o = .served s

/-- The program ends with result `r`, every operation being served. -/
abbrev Serves {α : Type} (env : Env) (p : Program α) (w : World) (r : Except Err α) (w' : World) :
    Prop := p.Ends (core env) Served w r w'

variable {env : Env} {u w w' : World} {α : Type} {r : Except Err α}

theorem exec_of_served {op : Op} {o : Outcome} {a : Except Err op.Ans} (ho : Served o)
    (h : (core env).exec op o u = some (a, w)) :
    ∃ s, op.fits s u = true ∧ effect s u op = (a, w) := by
  obtain ⟨s, rfl⟩ := ho
  have h : (if op.fits s u then some (effect s u op) else none) = some (a, w) := h
  split at h
  · exact ⟨s, ‹_›, Option.some.inj h⟩
  · cases h

/-- The next operation answers, and the rest goes on from there. -/
theorem serves_await {op : Op} {f : op.Ans → Program α} (h : Serves env (await op >>= f) w r w') :
    ∃ s, op.fits s w = true ∧
      After (core env) Served f (effect s w op).1 (effect s w op).2 r w' := by
  obtain ⟨a, u, hop, hf⟩ := (ends_bind _ _ _).mp h
  obtain ⟨o, ho, he⟩ := (ends_perform _ _).mp hop
  obtain ⟨s, hfit, heff⟩ := exec_of_served ho he
  obtain ⟨rfl, rfl⟩ := Prod.ext_iff.mp heff
  exact ⟨s, hfit, hf⟩

/-- A program whose operations can all be served with one supply ends. -/
theorem exists_ends {ok : Outcome → Prop} {p : Program α} (s : Supply) (hs : ok (.served s))
    (hp : p.Uses fun op => ∀ w, op.fits s w = true) (w : World) :
    ∃ r w', p.Ends (core env) ok w r w' := by
  induction p generalizing w with
  | done r => exact ⟨r, w, rfl, rfl⟩
  | call op k ih =>
      obtain ⟨r, w', hk⟩ := ih (effect s w op).1 (hp.2 _) (effect s w op).2
      exact ⟨r, w', .served s, _, _, hs, if_pos (hp.1 w), hk⟩

theorem exists_serves {p : Program α} (s : Supply)
    (hp : p.Uses fun op => ∀ w, op.fits s w = true) (w : World) :
    ∃ r w', Serves env p w r w' := exists_ends s ⟨s, rfl⟩ hp w

/-- Run a program undisturbed, its operations being served with these supplies. -/
def serveWith : Program α → List Supply → World → Option (Except Err α × World)
  | .done r, _, w => some (r, w)
  | .call _ _, [], _ => none
  | .call op k, s :: supplies, w =>
      if op.fits s w then serveWith (k (effect s w op).1) supplies (effect s w op).2 else none

theorem ends_of_serveWith {ok : Outcome → Prop} {p : Program α} {supplies : List Supply}
    (hok : ∀ s ∈ supplies, ok (.served s)) (h : serveWith p supplies w = some (r, w')) :
    p.Ends (core env) ok w r w' := by
  induction p generalizing w supplies with
  | done r₀ => cases h; exact ⟨rfl, rfl⟩
  | call op k ih =>
      cases supplies with
      | nil => cases h
      | cons s supplies =>
          simp only [serveWith] at h
          split at h
          · exact ⟨.served s, _, _, hok s List.mem_cons_self, if_pos ‹_›,
              ih _ (fun s hs => hok s (List.mem_cons_of_mem _ hs)) h⟩
          · cases h

theorem serves_of_serveWith {p : Program α} {supplies : List Supply}
    (h : serveWith p supplies w = some (r, w')) : Serves env p w r w' :=
  ends_of_serveWith (fun s _ => ⟨s, rfl⟩) h

/-! ## Transitions -/

/-- Transaction `id` went to status `s`, and nothing else the invariants are about changed. -/
structure Flipped (u w : World) (id : Uuid) (s : TransactionStatus) : Prop where
  flipped : ∃ t ∈ w.transactions, t.id = id ∧ t.status = s
  payments : w.payments = u.payments
  payouts : w.payouts = u.payouts
  webhookEvents : w.webhookEvents = u.webhookEvents
  paystack : w.paystack = u.paystack

theorem find_transaction {t : Transaction} (ht : t ∈ w.transactions) {id : Uuid} (hid : t.id = id) :
    (w.transactions.find fun t => t.id == id) = some t := by
  refine Table.find_eq ht (by simpa using hid) fun b hb hbi => ?_
  refine Table.eq_of_clash hb ht ?_
  simp [Constrained.clash, hid, show b.id = id by simpa using hbi]

/-- The flip of a transition that finds its row. -/
theorem commitTransition_ok {d : TransitionWrite} {t : Transaction} (ht : t ∈ w.transactions)
    (hsel : d.selects t = true) (s : Supply) :
    ∃ a, (commitTransition d s w).1 = .ok a ∧
      Flipped w (commitTransition d s w).2 d.transactionId d.newState := by
  have hfind : w.transactions.find (fun t => t.id == d.transactionId && t.status == d.oldState) =
      some t := by
    refine Table.find_eq ht hsel fun b hb hbs => Table.eq_of_clash hb ht ?_
    simp only [TransitionWrite.selects, Bool.and_eq_true, beq_iff_eq] at hsel hbs
    simp [Constrained.clash, hsel.1, hbs.1]
  obtain ⟨t', hwrite⟩ : ∃ t', w.transactions.update
      (fun t => t.id == d.transactionId && t.status == d.oldState)
      (fun t => { t with status := d.newState }) = some t' := by
    refine Table.update_isSome fun a _ b _ => ?_
    split <;> split <;> rfl
  have hid : t.id = d.transactionId := by
    simp only [TransitionWrite.selects, Bool.and_eq_true, beq_iff_eq] at hsel
    exact hsel.1
  have hmem := Table.mem_update_of hwrite ht hsel
  unfold commitTransition
  simp only [hfind, hwrite]
  split
  · exact ⟨_, rfl, ⟨_, hmem, hid, rfl⟩, rfl, rfl, rfl, rfl⟩
  · exact ⟨_, rfl, ⟨_, hmem, hid, rfl⟩, rfl, rfl, rfl, rfl⟩

theorem dispatch_serves {eventId : Uuid} {r : Except Err Unit}
    (h : Serves env (dispatch eventId) w r w') :
    r = .ok () ∧ ∃ deliveries, w' = { w with webhookDeliveries := deliveries } := by
  obtain ⟨a, u, hop, hh⟩ := (ends_tryCatch _ _ _).mp h
  obtain ⟨o, ho, he⟩ := (ends_perform _ _).mp hop
  obtain ⟨s, -, heff⟩ := exec_of_served ho he
  cases heff
  obtain ⟨rfl, rfl⟩ := hh
  exact ⟨rfl, _, rfl⟩

/-- A transition the machine permits is carried out. -/
theorem apply_serves {input : ApplyTransitionInput} {tx : Transaction} {next : TransactionStatus}
    {r : Except Err Transaction} (htx : tx ∈ w.transactions) (hid : tx.id = input.transactionId)
    (hok : ∀ disputes, transition tx.status input.event (input.context tx disputes) = .ok next)
    (h : Serves env (apply input) w r w') :
    (∃ t, r = .ok t) ∧ Flipped w w' input.transactionId next := by
  unfold apply at h
  obtain ⟨s, -, h⟩ := serves_await h
  simp only [effect, find_transaction htx hid, Option.map_some, after_ok, hok] at h
  obtain ⟨s', -, h⟩ := serves_await h
  have hsel : (input.write tx next).selects tx = true := by
    simp [TransitionWrite.selects, ApplyTransitionInput.write, hid]
  obtain ⟨a, ha, hflip⟩ := commitTransition_ok htx hsel s'
  simp only [effect, ha, after_ok] at h
  split at h
  · obtain ⟨rfl, rfl⟩ := h
    exact ⟨⟨_, rfl⟩, hflip⟩
  · obtain ⟨a', u, hd, h⟩ := (ends_bind _ _ _).mp h
    obtain ⟨rfl, deliveries, rfl⟩ := dispatch_serves hd
    obtain ⟨rfl, rfl⟩ := h
    exact ⟨⟨_, rfl⟩, hflip.flipped, hflip.payments, hflip.payouts, hflip.webhookEvents,
      hflip.paystack⟩

/-- A transition the machine rejects changes nothing. -/
theorem apply_rejects {input : ApplyTransitionInput} {tx : Transaction}
    {r : Except Err Transaction} (htx : tx ∈ w.transactions) (hid : tx.id = input.transactionId)
    (hno : ∀ disputes, ∃ e, transition tx.status input.event (input.context tx disputes) = .error e)
    (h : Serves env (apply input) w r w') : (∃ e, r = .error e) ∧ w' = w := by
  unfold apply at h
  obtain ⟨s, -, h⟩ := serves_await h
  simp only [effect, find_transaction htx hid, Option.map_some, after_ok] at h
  obtain ⟨e, he⟩ := hno (w.disputes.filter fun d =>
    d.transactionId == input.transactionId && freezingDisputeStatuses.contains d.status)
  rw [he] at h
  obtain ⟨rfl, rfl⟩ := h
  exact ⟨⟨_, rfl⟩, rfl⟩

/-! ## Payouts -/

theorem find_payout {p : Payout} (hp : p ∈ w.payouts) {key : String}
    (hkey : p.idempotencyKey = key) :
    (w.payouts.find fun p => p.idempotencyKey == key) = some p := by
  refine Table.find_eq hp (by simpa using hkey) fun b hb hbk => ?_
  refine Table.eq_of_clash hb hp ?_
  simp [Constrained.clash, hkey, show b.idempotencyKey = key by simpa using hbk]

theorem find_payout_none {key : String} (hno : ∀ p ∈ w.payouts, p.idempotencyKey ≠ key) :
    (w.payouts.find fun p => p.idempotencyKey == key) = none :=
  List.find?_eq_none.mpr fun p hp => by simpa using hno p hp

/-- A payout update whose new code no other payout carries goes through. -/
theorem payoutUpdate_ok {p : Payout} (hp : p ∈ w.payouts) {d : PayoutUpdate}
    (href : d.providerTransferReference = none)
    (hcode : ∀ code, d.providerTransferCode = some (some code) →
      ∀ q ∈ w.payouts, q.providerTransferCode = some code → q = p) :
    ∃ t, payoutUpdate p.idempotencyKey d w = (.ok (d.apply p), { w with payouts := t }) ∧
      d.apply p ∈ t := by
  obtain ⟨t, hwrite⟩ : ∃ t, w.payouts.update (fun q => q.idempotencyKey == p.idempotencyKey)
      d.apply = some t := by
    refine Table.update_one_isSome hp (by simp) (by simp [Constrained.clash])
      (fun b hb hbk => Table.eq_of_clash hb hp ?_) fun b hb hne => ?_
    · simp [Constrained.clash, show b.idempotencyKey = p.idempotencyKey by simpa using hbk]
    · have hclash : Constrained.clash p b = false := by
        by_contra hc
        exact hne (Table.eq_of_clash hp hb (by simpa using hc)).symm
      simp only [Constrained.clash, Bool.or_eq_false_iff] at hclash ⊢
      refine ⟨⟨⟨hclash.1.1.1, hclash.1.1.2⟩, ?_⟩, ?_⟩
      · cases hd : d.providerTransferCode with
        | none => simpa [PayoutUpdate.apply, hd] using hclash.1.2
        | some code =>
            cases code with
            | none => simp [PayoutUpdate.apply, hd, sameValue]
            | some code =>
                by_contra hc
                have hsame : b.providerTransferCode = some code := by
                  simpa [PayoutUpdate.apply, hd] using hc
                exact hne (hcode code hd b hb hsame)
      · simpa [PayoutUpdate.apply, href] using hclash.2
  refine ⟨t, ?_, Table.mem_update_of hwrite hp (by simp)⟩
  unfold payoutUpdate
  simp only [find_payout hp rfl, hwrite]

/-- The payout is settled. -/
def PaidOut (w : World) (id : Uuid) : Prop := ∃ p ∈ w.payouts, p.id = id ∧ p.status = .success

/-- The transaction is completed. -/
def IsCompleted (w : World) (id : Uuid) : Prop :=
  ∃ t ∈ w.transactions, t.id = id ∧ t.status = .completed

/-- A settled payout is returned as it is. -/
theorem markPaid_settled {p : Payout} (hp : p ∈ w.payouts) (hst : p.status = .success)
    {code : String} {r : Except Err Payout}
    (h : Serves env (markPaid p.idempotencyKey code) w r w') : r = .ok p ∧ w' = w := by
  unfold markPaid at h
  obtain ⟨s, -, h⟩ := serves_await h
  simp only [effect, find_payout hp rfl, after_ok, hst, if_true] at h
  exact h

/-- A payout that is not settled yet is, and a transaction being released is completed. -/
theorem markPaid_serves {p : Payout} {t : Transaction} (hp : p ∈ w.payouts)
    (ht : t ∈ w.transactions) (hid : t.id = p.transactionId)
    (hrel : t.status = .releaseProcessing ∨ t.status = .completed) (hst : p.status ≠ .success)
    {code : String} (hcode : ∀ q ∈ w.payouts, q.providerTransferCode = some code → q = p)
    {r : Except Err Payout} (h : Serves env (markPaid p.idempotencyKey code) w r w') :
    PaidOut w' p.id ∧ IsCompleted w' t.id := by
  unfold markPaid at h
  obtain ⟨s, -, h⟩ := serves_await h
  simp only [effect, find_payout hp rfl, after_ok, hst, if_false] at h
  obtain ⟨s', -, h⟩ := serves_await h
  obtain ⟨payouts, hupd, hmem⟩ := payoutUpdate_ok hp
    (d := { status := some .success, providerTransferCode := some (some code) }) rfl
    (fun code' hc => by cases hc; exact hcode)
  simp only [effect, hupd, after_ok] at h
  obtain ⟨a, v, happ, h⟩ := (ends_bind _ _ _).mp h
  have ht' : t ∈ ({ w with payouts := payouts } : World).transactions := ht
  have hpaid : ∃ q ∈ payouts, q.id = p.id ∧ q.status = .success := ⟨_, hmem, rfl, rfl⟩
  rcases hrel with hrel | hcomp
  · have hmay : ∀ context, transition t.status .payoutSucceeded context = .ok .completed := by
      intro context
      rw [hrel]
      rfl
    obtain ⟨⟨tx, rfl⟩, hflip⟩ := apply_serves ht' hid (fun _ => hmay _) happ
    obtain ⟨rfl, rfl⟩ := h
    rw [PaidOut, IsCompleted, hflip.payouts, hid]
    exact ⟨hpaid, hflip.flipped⟩
  · obtain ⟨⟨e, rfl⟩, rfl⟩ := apply_rejects ht' hid (fun _ => by rw [hcomp]; exact ⟨_, rfl⟩) happ
    obtain ⟨rfl, rfl⟩ := h
    exact ⟨hpaid, t, ht, rfl, hcomp⟩

end Meduman
