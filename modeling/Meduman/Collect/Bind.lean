import Meduman.Collect.Forward

/-!
# How a transfer finds its payment

A transfer into a virtual account reports its charge and its customer. The delivery binds the charge to
the customer's payment, unless another charge is bound to it, and verifies the payment it is left with.

* `Call.charge` : the charge a call delivers, and whose it is
* `IsBound` : the call learned that the charge is bound to a payment
* `Settles`, `Concludes` : how the delivery of a charge ends
* **`code_concludes`** : every delivery ends so
-/

set_option autoImplicit false

namespace Meduman

open Effect

/-! ## Deliveries -/

/-- The charge a payload reports, with its customer. -/
def PaystackWebhookPayload.charge (payload : PaystackWebhookPayload) :
    Option (String × Option String) :=
  if payload.event = "charge.success" then
    (truthy payload.dataOrEmpty.reference).map fun reference =>
      (reference, payload.dataOrEmpty.customerCode)
  else none

/-- The charge a call delivers, with its customer. -/
def Call.charge (env : Env) : Call → Option (String × Option String)
  | .paystackWebhook rawBody _ => (env.parse rawBody).bind PaystackWebhookPayload.charge
  | _ => none

/-- The event was recorded, and is being processed. -/
def IsRecorded (h : Hist) : Prop := ∃ d record, Saw h (.webhookEventCreate d) record

/-- The call learned that the charge is bound to this payment. -/
def IsBound (h : Hist) (p : Payment) (reference : String) : Prop :=
  p.providerChargeReference = some reference ∨ Saw h (.paymentBindCharge p.id reference) 1

/-- The call saw the payment its charge is bound to collected. -/
def SeesCollected (h : Hist) (reference : String) : Prop :=
  ∃ p q, PaymentShown h p ∧ IsBound h p reference ∧ PaymentShown h q ∧ q.id = p.id ∧
    q.status = .success

/-- The delivery loads, verifies, or writes a payment. -/
def Op.handlesPayment : Op → Bool
  | .paymentFindUnique _ | .paymentFindFirst _ | .verifyTransaction _ | .paymentUpdate .. => true
  | _ => false

/-- Something kept the delivery from collecting the payment its charge is bound to. -/
inductive Spoilt (h : Hist) (reference : String) : Prop
  | failed {op : Op} {e : Err} (handles : op.handlesPayment = true)
      (event : (⟨op, .error e⟩ : Event Op.Ans Err) ∈ h)
  | gone {id : Uuid} (saw : Saw h (.paymentFindUnique (.id id)) none)
  | inexact {p : Payment} {v : VerifyTransactionResult} (shown : PaymentShown h p)
      (bound : IsBound h p reference) (asked : Saw h (.verifyTransaction reference) v)
      (inexact : ¬ (v.status = "success" ∧ v.amount = p.amount))

/-- A bound charge collects its payment, or is kept from it. -/
def Settles (h : Hist) (reference : String) : Prop :=
  SeesCollected h reference ∨ Spoilt h reference

/-- How the delivery of a charge ends. -/
inductive Concludes (h : Hist) (reference : String) (customer : Option String) : Prop
  | settles (settles : Settles h reference)
  | hosted {p : Payment} (saw : Saw h (.paymentFindUnique (.providerReference reference)) (some p))
      (owns : p.providerReference = reference)
  | unnamed (customer : truthy customer = none)
  | nobody {code : String} (named : customer = some code)
      (saw : Saw h (.paymentFindFirst { providerCustomerCode := .equals code }) none)
  | refused {code : String} {p : Payment} {e : Err} (named : customer = some code)
      (owns : PaymentShown h p ∧ p.providerCustomerCode = some code)
      (event : (⟨.paymentBindCharge p.id reference, .error e⟩ : Event Op.Ans Err) ∈ h)
  | late {code : String} {p : Payment} {n : Nat} (named : customer = some code)
      (owns : PaymentShown h p ∧ p.providerCustomerCode = some code)
      (taken : Saw h (.paymentBindCharge p.id reference) n) (n_ne : n ≠ 1)

/-- What a delivery promises: it binds its own charge, to a payment of its customer, it loads payments
it was shown, and writes their status. -/
def BindsOwn (reference : String) (customer : Option String) (h : Hist) : Op → Prop
  | .paymentBindCharge id r => r = reference ∧ ∃ code p, customer = some code ∧
      Saw h (.paymentFindFirst { providerCustomerCode := .equals code }) (some p) ∧
      p.providerCustomerCode = some code ∧ p.id = id
  | .paymentFindUnique (.id id) => ∃ p, PaymentShown h p ∧ p.id = id
  | .paymentUpdate _ d => d.status ≠ none
  | _ => True

/-- A delivery that ended. -/
structure Ended (reference : String) (customer : Option String) (h : Hist) : Prop where
  settles : ∀ id, Saw h (.paymentBindCharge id reference) 1 → Settles h reference
  concludes : IsRecorded h → Concludes h reference customer

variable {env : Env} {c : Call} {h h' : Hist} {reference : String} {customer : Option String}
  {α : Type}

theorem IsBound.mono {p : Payment} (hb : IsBound h p reference) (hsub : h ⊆ h') :
    IsBound h' p reference := hb.imp_right fun hsaw => hsub hsaw

theorem Settles.mono (hs : Settles h reference) (hsub : h ⊆ h') : Settles h' reference := by
  rcases hs with ⟨p, q, hp, hb, hq, hid, hst⟩ | hs
  · exact .inl ⟨p, q, hp.mono hsub, hb.mono hsub, hq.mono hsub, hid, hst⟩
  · cases hs with
    | failed handles event => exact .inr (.failed handles (hsub event))
    | gone saw => exact .inr (.gone (hsub saw))
    | inexact shown bound asked inexact =>
        exact .inr (.inexact (shown.mono hsub) (bound.mono hsub) (hsub asked) inexact)

theorem Concludes.mono (hc : Concludes h reference customer) (hsub : h ⊆ h') :
    Concludes h' reference customer := by
  cases hc with
  | settles settles => exact .settles (settles.mono hsub)
  | hosted saw owns => exact .hosted (hsub saw) owns
  | unnamed customer => exact .unnamed customer
  | nobody named saw => exact .nobody named (hsub saw)
  | refused named owns event => exact .refused named (owns.imp_left fun h => h.mono hsub) (hsub event)
  | late named owns taken n_ne =>
      exact .late named (owns.imp_left fun h => h.mono hsub) (hsub taken) n_ne

/-! ## The verification -/

/-- The operation is no binding, loads no payment by its identifier, and writes the status of any it
writes. -/
def Op.bindsNothing : Op → Prop
  | .paymentBindCharge .. | .paymentFindUnique (.id _) => False
  | .paymentUpdate _ d => d.status ≠ none
  | _ => True

theorem bindsOwn_of_bindsNothing (h : Hist) (op : Op) (hop : op.bindsNothing) :
    BindsOwn reference customer h op := by
  cases op with
  | paymentBindCharge _ _ => exact hop.elim
  | paymentFindUnique key => cases key with
    | id _ => exact hop.elim
    | _ => trivial
  | paymentUpdate _ d => exact hop
  | _ => trivial

/-- What follows keeps what the history shows. -/
theorem along_kept {p : Program α} (hp : p.Uses Op.bindsNothing) {K : Hist → Prop} (hK : K h)
    (mono : ∀ {h h' : Hist}, K h → h ⊆ h' → K h') :
    p.Along Possible (BindsOwn reference customer) (fun _ h' => K h') h :=
  hp.along (fun h op hop => bindsOwn_of_bindsNothing h op hop)
    fun _ l _ => mono hK (List.subset_append_right l h)

theorem isQuiet_bindsNothing (op : Op) (hop : op.isQuiet) : op.bindsNothing := by
  cases op with
  | invoiceUpdateManyPaid _ _ | invoiceFindFirst _ | auditLogCreate _ | transactionFindUnique _
  | enqueueChatOutbound _ => trivial
  | _ => exact hop.elim

/-- The verification of the payment its charge is bound to. -/
theorem verifyAndProtectPayment_settles {p : Payment} {source : TrustedPaymentSource}
    (hp : PaymentShown h p) (hb : IsBound h p reference) :
    (verifyAndProtectPayment p reference source).Along Possible (BindsOwn reference customer)
      (fun _ h' => Settles h' reference) h := by
  unfold verifyAndProtectPayment
  split
  · rename_i hst
    refine along_kept ?_ (.inl ⟨p, p, hp, hb, hp, rfl, hst⟩) Settles.mono
    exact uses_bind ((markPaidByTransaction_quiet _).mono isQuiet_bindsNothing) fun _ => trivial
  rw [along_perform_bind]
  refine ⟨trivial, fun e _ => .inr (.failed rfl List.mem_cons_self), fun verified _ => ?_⟩
  have hsub : h ⊆ ⟨.verifyTransaction reference, .ok verified⟩ :: h := List.subset_cons_self _ _
  have hbad (hno : ¬ (verified.status = "success" ∧ verified.amount = p.amount)) :
      Settles (⟨.verifyTransaction reference, .ok verified⟩ :: h) reference :=
    .inr (.inexact (hp.mono hsub) (hb.mono hsub) List.mem_cons_self hno)
  split
  · rename_i hfail
    exact (along_perform _ _).mpr ⟨Option.some_ne_none _,
      fun _ _ => (hbad fun hv => hfail hv.1).mono (List.subset_cons_self _ _),
      fun _ _ => (hbad fun hv => hfail hv.1).mono (List.subset_cons_self _ _)⟩
  split
  · rename_i hamount
    exact hbad fun hv => hamount hv.2
  · rw [along_perform_bind]
    refine ⟨Option.some_ne_none _, fun e _ => .inr (.failed rfl List.mem_cons_self),
      fun updated hpos => ?_⟩
    obtain ⟨u, w, -, p₀, -, hid, hrow⟩ := hpos.answered
    refine along_kept ?_ (.inl ⟨p, updated, (hp.mono hsub).mono (List.subset_cons_self _ _),
      (hb.mono hsub).mono (List.subset_cons_self _ _), ⟨_, List.mem_cons_self, rfl⟩, ?_, ?_⟩)
      Settles.mono
    · refine uses_bind (apply_uses trivial (fun _ => trivial) fun _ => trivial) fun _ => ?_
      refine uses_bind ((markPaidByTransaction_quiet _).mono isQuiet_bindsNothing) fun _ => ?_
      exact uses_bind ((notifyProtected_quiet _).mono isQuiet_bindsNothing) fun _ => trivial
    · rw [hrow]; exact hid
    · rw [hrow]; rfl

/-! ## The delivery -/

/-- How the handler of a charge ends. -/
structure ChargeHandled (reference : String) (customer : Option String) (h : Hist) : Prop where
  settles : ∀ id, Saw h (.paymentBindCharge id reference) 1 → Settles h reference
  concludes : Concludes h reference customer

theorem Settles.handled (hs : Settles h reference) : ChargeHandled reference customer h :=
  ⟨fun _ _ => hs, .settles hs⟩

theorem ChargeHandled.mono (hh : ChargeHandled reference customer h) (hsub : h ⊆ h')
    (hnew : ∀ id, Saw h' (.paymentBindCharge id reference) 1 →
      Saw h (.paymentBindCharge id reference) 1) : ChargeHandled reference customer h' :=
  ⟨fun id hsaw => (hh.settles id (hnew id hsaw)).mono hsub, hh.concludes.mono hsub⟩

/-- A failed operation ends the handler. -/
theorem handled_failed {op : Op} {e : Err} (hop : op.handlesPayment = true) :
    ChargeHandled reference customer (⟨op, .error e⟩ :: h) :=
  Settles.handled (.inr (.failed hop List.mem_cons_self))

/-- The payment a charge is resolved to was shown, and the charge is bound to it. -/
def Resolved (reference : String) (customer : Option String) :
    Except Err (Option Payment) → Hist → Prop
  | .ok (some p), h => PaymentShown h p ∧ IsBound h p reference
  | _, h => ChargeHandled reference customer h

theorem resolveDvaPayment_resolved {code : String} (hname : customer = some code)
    (hfresh : ∀ id, ¬ Saw h (.paymentBindCharge id reference) 1) :
    (resolveDvaPayment code reference).Along Possible (BindsOwn reference customer)
      (Resolved reference customer) h := by
  -- a charge that is looked up is bound to what is found
  have hfound {p : Payment} {h : Hist} (hpos : Possible
      ⟨.paymentFindUnique (.providerChargeReference reference), .ok (some p)⟩) :
      Resolved reference customer (.ok (some p))
        (⟨.paymentFindUnique (.providerChargeReference reference), .ok (some p)⟩ :: h) := by
    obtain ⟨u, w, -, hsel⟩ := hpos.answered
    exact ⟨⟨_, List.mem_cons_self, rfl⟩, .inl (by simpa [PaymentKey.selects] using hsel)⟩
  unfold resolveDvaPayment
  rw [along_perform_bind]
  refine ⟨trivial, fun e _ => handled_failed rfl, ?_⟩
  rintro (_ | bound) hbound
  · dsimp only
    rw [along_perform_bind]
    refine ⟨trivial, fun e _ => handled_failed rfl, ?_⟩
    rintro (_ | p) hpos
    · refine ⟨fun id hsaw => absurd ?_ (hfresh id), .nobody hname List.mem_cons_self⟩
      simpa [Saw] using hsaw
    · obtain ⟨u, w, -, hsel⟩ := hpos.answered
      have hcode : p.providerCustomerCode = some code := by
        simpa [PaymentWhere.selects, CustomerFilter.selects] using hsel
      dsimp only
      rw [along_perform_bind]
      refine ⟨⟨rfl, code, p, hname, List.mem_cons_self, hcode, rfl⟩, fun e _ => ?_, fun count _ => ?_⟩
      · refine ⟨fun id hsaw => absurd ?_ (hfresh id),
          .refused hname ⟨⟨_, List.mem_cons_of_mem _ List.mem_cons_self, rfl⟩, hcode⟩
            List.mem_cons_self⟩
        simpa [Saw] using hsaw
      · split
        · rename_i hcount
          refine (along_perform _ _).mpr ⟨trivial, fun e _ => handled_failed rfl, ?_⟩
          rintro (_ | winner) hwin
          · refine ⟨fun id hsaw => absurd ?_ (hfresh id), .late hname
              ⟨⟨_, List.mem_cons_of_mem _ (List.mem_cons_of_mem _ List.mem_cons_self), rfl⟩, hcode⟩
              (List.mem_cons_of_mem _ List.mem_cons_self) hcount⟩
            have hne : count ≠ 1 := hcount
            simpa [Saw, hne.symm] using hsaw
          · exact hfound hwin
        · rename_i hcount
          rw [not_not.mp hcount]
          refine (along_perform _ _).mpr ⟨⟨p, ⟨_, List.mem_cons_of_mem _ List.mem_cons_self, rfl⟩,
            rfl⟩, fun e _ => handled_failed rfl, ?_⟩
          rintro (_ | q) hq
          · exact Settles.handled (.inr (.gone List.mem_cons_self))
          · obtain ⟨u, w, -, hsel⟩ := hq.answered
            have hid : q.id = p.id := by simpa [PaymentKey.selects] using hsel
            refine ⟨⟨_, List.mem_cons_self, rfl⟩, .inr ?_⟩
            rw [hid]
            exact List.mem_cons_of_mem _ List.mem_cons_self
  · exact hfound hbound

theorem verifyAndProtectPayment_bindsNothing (p : Payment) (r : String)
    (source : TrustedPaymentSource) :
    (verifyAndProtectPayment p r source).Uses Op.bindsNothing := by
  unfold verifyAndProtectPayment
  split
  · exact uses_bind ((markPaidByTransaction_quiet _).mono isQuiet_bindsNothing) fun _ => trivial
  · refine uses_bind (uses_perform trivial) fun verified => ?_
    split
    · exact uses_perform (Option.some_ne_none _)
    · split
      · trivial
      · refine uses_bind (uses_perform (Option.some_ne_none _)) fun updated => ?_
        refine uses_bind (apply_uses trivial (fun _ => trivial) fun _ => trivial) fun _ => ?_
        refine uses_bind ((markPaidByTransaction_quiet _).mono isQuiet_bindsNothing) fun _ => ?_
        exact uses_bind ((notifyProtected_quiet _).mono isQuiet_bindsNothing) fun _ => trivial

/-- What binds nothing leaves a handled charge handled. -/
theorem along_handled {p : Program α} (hp : p.Uses Op.bindsNothing)
    (hh : ChargeHandled reference customer h) :
    p.Along Possible (BindsOwn reference customer) (fun _ h' => ChargeHandled reference customer h') h := by
  refine hp.along (fun h op hop => bindsOwn_of_bindsNothing h op hop) fun _ l hl => ?_
  refine hh.mono (List.subset_append_right l h) fun id hsaw => ?_
  exact (List.mem_append.mp hsaw).resolve_left fun hmem => (hl _ hmem : False)

/-- **The handler of a charge** collects the payment the charge is bound to, or binds it too late, or is
kept from it. -/
theorem handleChargeSuccess_handled {source : TrustedPaymentSource}
    (hfresh : ∀ id, ¬ Saw h (.paymentBindCharge id reference) 1) :
    (handleChargeSuccess reference customer source).Along Possible (BindsOwn reference customer)
      (fun _ h' => ChargeHandled reference customer h') h := by
  unfold handleChargeSuccess
  rw [along_perform_bind]
  refine ⟨trivial, fun e _ => handled_failed rfl, ?_⟩
  rintro (_ | hosted) hpos
  · dsimp only
    split
    · rename_i hname
      refine ⟨fun id hsaw => absurd ?_ (hfresh id), .unnamed hname⟩
      simpa [Saw] using hsaw
    · rename_i code hname
      obtain ⟨hname, -⟩ := Option.filter_eq_some_iff.mp hname
      rw [along_bind]
      refine (resolveDvaPayment_resolved hname fun id hsaw => hfresh id ?_).mono fun r h' hr => ?_
      · simpa [Saw] using hsaw
      · rcases r with e | _ | p
        · exact hr
        · exact hr
        · rw [then_ok]
          dsimp only
          rw [along_bind]
          refine (verifyAndProtectPayment_settles hr.1 hr.2).mono fun r h'' hs => ?_
          cases r <;> exact hs.handled
  · -- the charge of a hosted checkout is not bound
    refine along_handled (uses_bind (verifyAndProtectPayment_bindsNothing _ _ _) fun _ => trivial)
      ⟨fun id hsaw => absurd ?_ (hfresh id), .hosted List.mem_cons_self ?_⟩
    · simpa [Saw] using hsaw
    · obtain ⟨u, w, -, hsel⟩ := hpos.answered
      simpa [PaymentKey.selects] using hsel

/-- A history in which nothing was recorded and nothing bound. -/
def Untouched (h : Hist) : Prop := ∀ e ∈ h, (∀ d, e.op ≠ .webhookEventCreate d) ∧
  ∀ id r, e.op ≠ .paymentBindCharge id r

theorem Untouched.ended (hh : Untouched h) : Ended reference customer h where
  settles id hsaw := absurd rfl ((hh _ hsaw).2 id reference)
  concludes := fun ⟨d, _, hsaw⟩ => absurd rfl ((hh _ hsaw).1 d)

theorem ChargeHandled.ended (hh : ChargeHandled reference customer h) : Ended reference customer h :=
  ⟨hh.settles, fun _ => hh.concludes⟩

theorem route_handled {payload : PaystackWebhookPayload}
    (hcharge : payload.charge = some (reference, customer))
    (hfresh : ∀ id, ¬ Saw h (.paymentBindCharge id reference) 1) :
    (route payload).Along Possible (BindsOwn reference customer)
      (fun _ h' => ChargeHandled reference customer h') h := by
  unfold PaystackWebhookPayload.charge at hcharge
  split at hcharge
  · rename_i hevent
    obtain ⟨r, hr, heq⟩ := Option.map_eq_some_iff.mp hcharge
    obtain ⟨rfl, rfl⟩ := Prod.mk.inj heq
    simp only [route, hevent, if_true, hr]
    exact handleChargeSuccess_handled hfresh
  · cases hcharge

theorem handlePaystackEvent_ended {rawBody signature : String} {payload : PaystackWebhookPayload}
    (hparse : env.parse rawBody = some payload)
    (hcharge : payload.charge = some (reference, customer)) :
    (handlePaystackEvent env rawBody signature).Along Possible (BindsOwn reference customer)
      (fun _ h' => Ended reference customer h') [] := by
  have hnil : Untouched [] := fun _ he => absurd he List.not_mem_nil
  unfold handlePaystackEvent
  split
  · exact hnil.ended
  rw [hparse]
  dsimp only
  rw [along_bind]
  have hstale : (isStale env payload.dataOrEmpty).Along Possible (BindsOwn reference customer)
      (fun _ h' => Untouched h') [] := by
    unfold isStale
    split
    · exact hnil
    · rw [along_perform_bind]
      have hnow : ∀ a, Untouched [⟨.now, a⟩] := fun a e he => by
        rw [List.mem_singleton.mp he]
        exact ⟨fun _ => Op.noConfusion, fun _ _ => Op.noConfusion⟩
      exact ⟨trivial, fun e _ => hnow _, fun now _ => hnow _⟩
  refine hstale.mono fun r h₁ hh₁ => ?_
  rcases r with e | stale
  · exact hh₁.ended
  rw [then_ok]
  split
  · exact hh₁.ended
  rw [along_bind]
  unfold recordEvent
  have hunrecorded : ∀ e, Untouched h₁ →
      Ended reference customer (⟨.webhookEventCreate ⟨eventKey payload, payload.event, payload⟩,
        .error e⟩ :: h₁) := fun e hh => by
    refine ⟨fun id hsaw => ?_, fun ⟨d, record, hsaw⟩ => ?_⟩
    · rcases List.mem_cons.mp hsaw with heq | hmem
      · cases heq
      · exact absurd rfl ((hh _ hmem).2 id reference)
    · rcases List.mem_cons.mp hsaw with heq | hmem
      · cases heq
      · exact absurd rfl ((hh _ hmem).1 d)
  rw [along_tryCatch, along_perform_bind]
  refine ⟨trivial, fun e _ => ?_, fun record _ => ?_⟩
  · rw [rescue_error]
    split <;> exact hunrecorded e hh₁
  · show (processEvent record.id payload).Along Possible (BindsOwn reference customer)
      (fun _ h' => Ended reference customer h') _
    unfold processEvent
    rw [along_tryCatch, along_bind]
    refine (route_handled hcharge fun id hsaw => ?_).mono fun r h₂ hh₂ => ?_
    · rcases List.mem_cons.mp hsaw with heq | hmem
      · cases heq
      · exact absurd rfl ((hh₁ _ hmem).2 id reference)
    · have herror : ∀ (e : Err) (id : Uuid) (h : Hist), ChargeHandled reference customer h →
          (await (.webhookEventUpdate id ("error: " ++ e.message)) >>= fun _ =>
            (Prog.throw e : Program WebhookResult)).Along Possible (BindsOwn reference customer)
              (fun _ h' => Ended reference customer h') h := by
        intro e id h hh
        have huses : (await (.webhookEventUpdate id ("error: " ++ e.message)) >>= fun _ =>
            (Prog.throw e : Program WebhookResult)).Uses Op.bindsNothing :=
          uses_bind (uses_perform trivial) fun _ => trivial
        exact (along_handled huses hh).mono fun _ _ hh => hh.ended
      cases r with
      | error e => exact herror e _ _ hh₂
      | ok handled =>
          rw [then_ok, along_perform_bind]
          refine ⟨trivial, fun e _ => herror e _ _ (hh₂.mono (List.subset_cons_self _ _) ?_),
            fun _ _ => (hh₂.mono (List.subset_cons_self _ _) ?_).ended⟩
          · intro id hsaw
            simpa [Saw] using hsaw
          · intro id hsaw
            simpa [Saw] using hsaw

/-- What every call promises of the charge it delivers. -/
def Binds (env : Env) (c : Call) (h : Hist) (op : Op) : Prop :=
  ∀ reference customer, c.charge env = some (reference, customer) → BindsOwn reference customer h op

/-- How every call ends with the charge it delivers. -/
def EndsCharge (env : Env) (c : Call) (_ : Except Err Reply) (h : Hist) : Prop :=
  ∀ reference customer, c.charge env = some (reference, customer) → Ended reference customer h

/-- **Every delivery of a charge ends so.** -/
theorem code_concludes (env : Env) (c : Call) :
    (code env c).Along Possible (Binds env c) (EndsCharge env c) [] := by
  cases hcharge : c.charge env with
  | none =>
      refine ((along_any (code env c) []).weaken fun _ _ _ r k hc => ?_).mono fun _ _ _ r k hc => ?_
      · rw [hcharge] at hc
        cases hc
      · rw [hcharge] at hc
        cases hc
  | some charge =>
      obtain ⟨reference, customer⟩ := charge
      cases c with
      | paystackWebhook rawBody signature =>
          obtain ⟨payload, hparse, hpayload⟩ := Option.bind_eq_some_iff.mp hcharge
          rw [code, Prog.map_eq, along_bind]
          refine ((handlePaystackEvent_ended hparse hpayload).weaken fun h op hop r k hc => ?_).mono
            fun r h hh => ?_
          · obtain ⟨rfl, rfl⟩ := Prod.mk.inj (Option.some.inj (hcharge.symm.trans hc))
            exact hop
          · have hends : EndsCharge env (.paystackWebhook rawBody signature) (.error (.plain "")) h :=
              fun r k hc => by
                obtain ⟨rfl, rfl⟩ := Prod.mk.inj (Option.some.inj (hcharge.symm.trans hc))
                exact hh
            cases r <;> exact hends
      | _ => cases hcharge

end Meduman
