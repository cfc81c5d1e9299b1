import Meduman.Core.Ground

/-!
# What a history still tells

Every answer a call got was true of some earlier world. Rows only grow, so the answer tells something
about the world the call is in now, whatever the other calls did in between.

* `Remembered` : what one answer still tells
* `Told` : what the report a call carries still tells
* `Known` : both, for a whole history
* `known_cons` : a performed operation adds its answer
-/

set_option autoImplicit false

namespace Meduman

open Effect

/-! ## One answer -/

/-- A payout row some call saw. -/
structure PayoutKnown (w : World) (p : Payout) : Prop where
  ground : PayoutGround w p
  later : ∃ p' ∈ w.payouts, p.Later p'

/-- A payment row some call saw. -/
structure PaymentKnown (w : World) (p : Payment) : Prop where
  ground : PaymentGround w p
  later : ∃ p' ∈ w.payments, p.Later p'

/-- A transaction row some call saw. -/
def TransactionKnown (w : World) (t : Transaction) : Prop := ∃ t' ∈ w.transactions, t.Later t'

/-- What an answer still tells about world `w`. -/
def Remembered : (op : Op) → op.Ans → World → Prop
  | .transactionFindUnique _, some t, w => TransactionKnown w t
  | .transactionFindWithDisputes _ _, some (t, _), w => TransactionKnown w t
  | .paymentFindUnique _, some p, w => PaymentKnown w p
  | .paymentFindFirst _, some p, w => PaymentKnown w p
  | .paymentCreate d, p, w => PaymentKnown w p ∧ p.providerReference = d.providerReference
  | .paymentUpdate _ _, p, w => PaymentKnown w p
  | .paymentBindCharge id r, n, w =>
      0 < n → ∃ p ∈ w.payments, p.id = id ∧ p.providerChargeReference = some r
  | .payoutCreate _, p, w => PayoutKnown w p
  | .payoutFindUnique _, some p, w => PayoutKnown w p
  | .payoutUpdate _ _, p, w => PayoutKnown w p
  | .verifyTransaction r, v, w => v ∈ w.paystack.verified ∧ v.reference = r
  | .initiateTransfer i, r, w => ∃ t ∈ w.paystack.transfers,
      t.reference = i.reference ∧ t.transferCode = r.transferCode ∧ t.reason = i.reason
  | .fetchTransfer r, v, w =>
      ∃ t ∈ w.paystack.transfers, t.reference = r ∧ t.transferCode = v.transferCode
  | _, _, _ => True

variable {u w : World}

theorem PayoutKnown.mono {p : Payout} (h : PayoutKnown u p) (hg : Grows u w) :
    PayoutKnown w p where
  ground := h.ground.mono hg
  later := by
    obtain ⟨p', hp', hl⟩ := h.later
    obtain ⟨p'', hp'', hl'⟩ := hg.payouts p' hp'
    exact ⟨p'', hp'', hl.trans hl'⟩

theorem PaymentKnown.mono {p : Payment} (h : PaymentKnown u p) (hg : Grows u w) :
    PaymentKnown w p where
  ground := h.ground.mono hg
  later := by
    obtain ⟨p', hp', hl⟩ := h.later
    obtain ⟨p'', hp'', hl'⟩ := hg.payments p' hp'
    exact ⟨p'', hp'', hl.trans hl'⟩

theorem TransactionKnown.mono {t : Transaction} (h : TransactionKnown u t) (hg : Grows u w) :
    TransactionKnown w t := by
  obtain ⟨t', ht', hl⟩ := h
  obtain ⟨t'', ht'', hl'⟩ := hg.transactions t' ht'
  exact ⟨t'', ht'', hl.trans hl'⟩

theorem Ground.payoutKnown {p : Payout} (hw : Ground w) (hp : p ∈ w.payouts) : PayoutKnown w p :=
  ⟨hw.payouts p hp, p, hp, .refl p⟩

theorem Ground.paymentKnown {p : Payment} (hw : Ground w) (hp : p ∈ w.payments) :
    PaymentKnown w p := ⟨hw.payments p hp, p, hp, .refl p⟩

theorem Remembered.mono {op : Op} {a : op.Ans} (h : Remembered op a u) (hg : Grows u w) :
    Remembered op a w := by
  cases op with
  | transactionFindUnique key => cases a with
    | none => trivial
    | some t => exact TransactionKnown.mono h hg
  | transactionFindWithDisputes id statuses => cases a with
    | none => trivial
    | some r => exact TransactionKnown.mono h hg
  | paymentFindUnique key => cases a with
    | none => trivial
    | some p => exact PaymentKnown.mono h hg
  | paymentFindFirst query => cases a with
    | none => trivial
    | some p => exact PaymentKnown.mono h hg
  | paymentCreate d => exact ⟨h.1.mono hg, h.2⟩
  | paymentUpdate id d => exact PaymentKnown.mono h hg
  | paymentBindCharge id r =>
      intro hn
      obtain ⟨p, hp, hid, hr⟩ := h hn
      obtain ⟨p', hp', hl⟩ := hg.payments p hp
      exact ⟨p', hp', hl.id.trans hid, hl.providerChargeReference r hr⟩
  | payoutCreate d => exact PayoutKnown.mono h hg
  | payoutFindUnique key => cases a with
    | none => trivial
    | some p => exact PayoutKnown.mono h hg
  | payoutUpdate key d => exact PayoutKnown.mono h hg
  | verifyTransaction r => exact ⟨hg.verified h.1, h.2⟩
  | initiateTransfer i =>
      obtain ⟨t, ht, href, hcode, hreason⟩ := h
      obtain ⟨t', ht', hl⟩ := hg.transfers t ht
      exact ⟨t', ht', hl.reference.trans href, hl.transferCode.trans hcode,
        hl.reason.trans hreason⟩
  | fetchTransfer r =>
      obtain ⟨t, ht, href, hcode⟩ := h
      obtain ⟨t', ht', hl⟩ := hg.transfers t ht
      exact ⟨t', ht', hl.reference.trans href, hl.transferCode.trans hcode⟩
  | _ => trivial

/-- An answer is remembered in the world it leaves. -/
theorem remembered_of_answered {op : Op} {a : op.Ans} (h : Answered op a u w) (hu : Ground u)
    (hw : Ground w) (hg : Grows u w) : Remembered op a w := by
  cases op with
  | transactionFindUnique key => cases a with
    | none => trivial
    | some t => exact hg.transactions t h.1
  | transactionFindWithDisputes id statuses => cases a with
    | none => trivial
    | some r => exact hg.transactions r.1 h.1
  | paymentFindUnique key => cases a with
    | none => trivial
    | some p => exact (hu.paymentKnown h.1).mono hg
  | paymentFindFirst query => cases a with
    | none => trivial
    | some p => exact (hu.paymentKnown h.1).mono hg
  | paymentCreate d =>
      obtain ⟨hp, id, now, hrow⟩ := h
      exact ⟨hw.paymentKnown hp, by rw [hrow]; rfl⟩
  | paymentUpdate id d => exact hw.paymentKnown h.1
  | paymentBindCharge id r => exact h
  | payoutCreate d => exact hw.payoutKnown h.1
  | payoutFindUnique key => cases a with
    | none => trivial
    | some p => exact (hu.payoutKnown h.1).mono hg
  | payoutUpdate key d => exact hw.payoutKnown h.1
  | verifyTransaction r => exact h
  | initiateTransfer i => exact h.2
  | fetchTransfer r =>
      obtain ⟨t, ht, href, hv⟩ := h
      obtain ⟨t', ht', hl⟩ := hg.transfers t ht
      exact ⟨t', ht', hl.reference.trans href, by rw [hl.transferCode, hv]⟩
  | _ => trivial

/-! ## The report a call carries -/

variable {env : Env} {c : Call} {h : Hist}

/-- What Paystack reported is still so, or was once. -/
structure Told (env : Env) (c : Call) (w : World) : Prop where
  failed : ∀ key, ReportsFailed env c key → ∃ t ∈ w.paystack.transfers,
    t.reference = key ∧ (t.status = .failed ∨ t.status = .reversed)
  settled : ∀ key code, ReportsSettled env c key code → ∃ t ∈ w.paystack.transfers,
    t.reference = key ∧ t.transferCode = code ∧ t.settled = true
  charge : ∀ r, ReportsCharge env c r → r ∈ w.paystack.charges

theorem Told.mono (ht : Told env c u) (hg : Grows u w) : Told env c w where
  failed key hr := by
    obtain ⟨t, ht, href, hover⟩ := ht.failed key hr
    obtain ⟨t', ht', hl⟩ := hg.transfers t ht
    rw [hl.terminal hover] at ht'
    exact ⟨t, ht', href, hover⟩
  settled key code hr := by
    obtain ⟨t, ht, href, hcode, hset⟩ := ht.settled key code hr
    obtain ⟨t', ht', hl⟩ := hg.transfers t ht
    exact ⟨t', ht', hl.reference.trans href, hl.transferCode.trans hcode, hl.settled hset⟩
  charge r hr := hg.charges (ht.charge r hr)

/-- A signed report is authentic. -/
theorem authentic_of_admits {rawBody signature : String} {payload : PaystackWebhookPayload}
    (hadm : admits env (.paystackWebhook rawBody signature) w = true)
    (hsig : verifyWebhookSignature env rawBody signature = true)
    (hparse : env.parse rawBody = some payload) : authentic payload w = true := by
  rw [admits, if_pos hsig, hparse] at hadm
  exact hadm

theorem told_failed {key : String} (hadm : admits env c w = true)
    (hr : ReportsFailed env c key) : ∃ t ∈ w.paystack.transfers,
      t.reference = key ∧ (t.status = .failed ∨ t.status = .reversed) := by
  cases c with
  | markFailed k status reason =>
      cases hr
      obtain ⟨t, ht, heq⟩ := List.any_eq_true.mp hadm
      simp only [Bool.and_eq_true, beq_iff_eq] at heq
      refine ⟨t, ht, heq.1, ?_⟩
      cases status with
      | failed => exact .inl heq.2
      | reversed => exact .inr heq.2
  | paystackWebhook rawBody signature =>
      obtain ⟨hsig, payload, hparse, href, hev⟩ := hr
      have hauth := authentic_of_admits hadm hsig hparse
      simp only [authentic, href] at hauth
      rcases hev with hev | hev <;>
        simp only [hev, String.reduceEq, if_true, if_false] at hauth <;>
        obtain ⟨t, ht, heq⟩ := List.any_eq_true.mp hauth <;>
        simp only [Bool.and_eq_true, beq_iff_eq] at heq
      · exact ⟨t, ht, heq.1, .inl heq.2⟩
      · exact ⟨t, ht, heq.1, .inr heq.2⟩
  | _ => cases hr

theorem told_settled {key code : String} (hadm : admits env c w = true)
    (hr : ReportsSettled env c key code) : ∃ t ∈ w.paystack.transfers,
      t.reference = key ∧ t.transferCode = code ∧ t.settled = true := by
  cases c with
  | markPaid k code' =>
      obtain ⟨rfl, rfl⟩ := hr
      obtain ⟨t, ht, heq⟩ := List.any_eq_true.mp hadm
      simp only [Bool.and_eq_true, beq_iff_eq] at heq
      exact ⟨t, ht, heq.1.1, heq.2, heq.1.2⟩
  | paystackWebhook rawBody signature =>
      obtain ⟨hsig, payload, hparse, href, hcode, hev⟩ := hr
      have hauth := authentic_of_admits hadm hsig hparse
      simp only [authentic, href, hev, String.reduceEq, if_true, if_false, hcode] at hauth
      obtain ⟨t, ht, heq⟩ := List.any_eq_true.mp hauth
      simp only [Bool.and_eq_true, beq_iff_eq, Option.all_some] at heq
      exact ⟨t, ht, heq.1.1, heq.2.symm, heq.1.2⟩
  | _ => cases hr

theorem told_charge {r : String} (hadm : admits env c w = true) (hr : ReportsCharge env c r) :
    r ∈ w.paystack.charges := by
  cases c with
  | paystackWebhook rawBody signature =>
      obtain ⟨hsig, payload, hparse, href, hev⟩ := hr
      have hauth := authentic_of_admits hadm hsig hparse
      simp only [authentic, href, hev, if_true] at hauth
      exact List.contains_iff_mem.mp hauth
  | _ => cases hr

theorem told_of_admits (hadm : admits env c w = true) : Told env c w :=
  ⟨fun _ => told_failed hadm, fun _ _ => told_settled hadm, fun _ => told_charge hadm⟩

/-! ## A whole history -/

/-- What the history of a call tells about world `w`. A charge of ours that is reported has a
payment, so a call that found none knows that the charge is not ours. -/
structure Known (env : Env) (c : Call) (h : Hist) (w : World) : Prop where
  told : Told env c w
  remembered : ∀ op a, Saw h op a → Remembered op a w
  looked : ∀ r, ReportsCharge env c r → Saw h (.paymentFindUnique (.providerReference r)) none →
    isOurReference r = false

theorem known_nil (hadm : admits env c w = true) : Known env c [] w where
  told := told_of_admits hadm
  remembered _ _ h := absurd h List.not_mem_nil
  looked _ _ h := absurd h List.not_mem_nil

theorem Known.mono (hk : Known env c h u) (hg : Grows u w) : Known env c h w where
  told := hk.told.mono hg
  remembered op a hs := (hk.remembered op a hs).mono hg
  looked := hk.looked

theorem saw_cons {e : Event Op.Ans Err} {op : Op} {a : op.Ans} (h' : Saw (e :: h) op a) :
    e = ⟨op, .ok a⟩ ∨ Saw h op a := by
  rcases List.mem_cons.mp h' with he | hs
  · exact .inl he.symm
  · exact .inr hs

theorem known_cons {op : Op} {o : Outcome} {a : Except Err op.Ans} (hk : Known env c h u)
    (hu : Ground u) (hw : Ground w) (hg : Grows u w) (hexec : exec op o u = some (a, w)) :
    Known env c (⟨op, a⟩ :: h) w where
  told := hk.told.mono hg
  remembered op' a' hs := by
    rcases saw_cons hs with he | hs
    · cases he
      exact remembered_of_answered (exec_answered hexec) hu hw hg
    · exact (hk.remembered op' a' hs).mono hg
  looked r hr hs := by
    rcases saw_cons hs with he | hs
    · cases he
      have hnone : ∀ p ∈ u.payments, (PaymentKey.providerReference r).selects p = false :=
        exec_answered hexec
      by_contra hours
      obtain ⟨p, hp, href⟩ := hu.charges r (hk.told.charge r hr) (by simpa using hours)
      have hsel := hnone p hp
      simp [PaymentKey.selects, href] at hsel
    · exact hk.looked r hr hs

/-! ### Reading a history -/

theorem Known.payout {p : Payout} (hk : Known env c h w) (hp : PayoutShown h p) :
    PayoutKnown w p := by
  obtain ⟨⟨op, a⟩, he, hof⟩ := hp
  unfold payoutOf at hof
  split at hof <;> cases hof <;> rename_i heq <;> cases heq <;> exact hk.remembered _ _ he

theorem Known.payment {p : Payment} (hk : Known env c h w) (hp : PaymentShown h p) :
    PaymentKnown w p := by
  obtain ⟨⟨op, a⟩, he, hof⟩ := hp
  unfold paymentOf at hof
  split at hof <;> cases hof <;> rename_i heq <;> cases heq
  · exact (hk.remembered _ _ he).1
  · exact hk.remembered _ _ he
  · exact hk.remembered _ _ he
  · exact hk.remembered _ _ he

theorem Known.transaction {t : Transaction} (hk : Known env c h w) (ht : TransactionShown h t) :
    TransactionKnown w t := by
  obtain ⟨⟨op, a⟩, he, hof⟩ := ht
  unfold transactionOf at hof
  split at hof
  · rename_i heq
    cases heq
    cases hof
    exact hk.remembered _ _ he
  · rename_i r heq
    cases heq
    obtain ⟨x, rfl, rfl⟩ := Option.map_eq_some_iff.mp hof
    exact hk.remembered _ _ he
  · cases hof

end Meduman
