import Meduman.Core.Ground
import Meduman.Webhook.Stored

/-!
# Event keys

An event is keyed by its type and by `id`, else `reference`, else the word `unknown`. It is routed by
other fields: an assignment by its customer, everything else by its reference.

* `subject` : the charge, the customer or the transfer an event is about
* `KeysTell` : events of a type that share an identifier are about the same
* `Distinguished` : how an event must be answered
* `Deliverable` : Paystack can deliver either of two events before any other
* `eventKey_injective` : the key determines the type and the identifier
* `exists_duplicate` : an event whose key another took is answered as a duplicate
* **`duplicate_alike_iff`** : when duplicates were delivered before
* `assignment_lost` : when not
-/

set_option autoImplicit false

namespace Meduman

open Effect Prog

/-- What an event is about: a customer, or the charge or transfer of its reference. -/
def subject (payload : PaystackWebhookPayload) : Option String :=
  if payload.event = "dedicatedaccount.assign.success" then
    truthy payload.dataOrEmpty.customerCode
  else truthy payload.dataOrEmpty.reference

/-- The events are of one type and about the same charge, customer or transfer. -/
def Alike (a b : PaystackWebhookPayload) : Prop := a.event = b.event ∧ subject a = subject b

variable (env : Env)

/-- The event was delivered, signed, earlier in the run. -/
def DeliveredIn (x : Config (core env)) (a : PaystackWebhookPayload) : Prop :=
  ∃ p ∈ x.procs, Delivers env p.call a

/-- The identifier an event is keyed by tells what it is about: of two events of one type that carry the
same identifier, the second of which `route` acts on, both are about the same charge, customer or
transfer. -/
def KeysTell (events : Set PaystackWebhookPayload) : Prop :=
  ∀ a ∈ events, ∀ b ∈ events, route b ≠ pure false → a.event = b.event →
    a.dataOrEmpty.identifier = b.dataOrEmpty.identifier → subject a = subject b

/-- The reply to a served delivery keeps the event apart from the others: it is a duplicate only if an
event alike was delivered, and it is what `route` comes to if none was. -/
def Distinguished (x : Config (core env)) (b : PaystackWebhookPayload)
    (r : Except Err WebhookResult) : Prop :=
  (r = .ok { duplicate := true } → ∃ a, DeliveredIn env x a ∧ Alike a b) ∧
    ((∀ a, DeliveredIn env x a → ¬ Alike a b) → ∃ events a w',
      Serves env (route b) { x.world with webhookEvents := events } a w' ∧ r = WebhookResult.ofRoute a)

/-- In every run that delivers these events only, a fresh delivery of one `route` acts on keeps it apart
from the others. -/
def KeptApart (events : Set PaystackWebhookPayload) : Prop :=
  ∀ x, Reachable env Guard.free x → (∀ a, DeliveredIn env x a → a ∈ events) →
    ∀ b ∈ events, ∀ rawBody signature, verifyWebhookSignature env rawBody signature = true →
      env.parse rawBody = some b → staleAt env b (World.clock x.world) = false →
      route b ≠ pure false → ∀ r w', Serves env (handlePaystackEvent env rawBody signature) x.world r w' →
        Distinguished env x b r

/-- In some run Paystack can deliver `a`, and no event before it, at a time when `b` is fresh as well. -/
def Deliverable (a b : PaystackWebhookPayload) : Prop :=
  ∃ x, Reachable env Guard.free x ∧ (∀ c, ¬ DeliveredIn env x c) ∧
    (∃ rawBody signature, verifyWebhookSignature env rawBody signature = true ∧
      env.parse rawBody = some a) ∧
    (∃ rawBody signature, verifyWebhookSignature env rawBody signature = true ∧
      env.parse rawBody = some b) ∧
    authentic a x.world = true ∧ staleAt env a (World.clock x.world) = false ∧
    staleAt env b (World.clock x.world) = false

variable {env} {w' : World} {x : Config (core env)} {payload : PaystackWebhookPayload}

/-! ## Keys -/

/-- The kinds of events `route` handles. -/
def handledKinds : List String :=
  ["charge.success", "dedicatedaccount.assign.success", "transfer.success", "transfer.failed",
    "transfer.reversed"]

/-- `route` acts on events of the handled kinds only. -/
theorem handled_of_route (hacts : route payload ≠ pure false) : payload.event ∈ handledKinds := by
  by_contra hno
  simp only [handledKinds, List.mem_cons, List.not_mem_nil, or_false, not_or] at hno
  obtain ⟨hcharge, hassign, hsuccess, hfailed, hreversed⟩ := hno
  simp only [route, hcharge, hassign, hsuccess, hfailed, hreversed, or_self, if_false, ne_eq,
    not_true] at hacts

theorem colon_notMem_of_handled {event : String} (h : event ∈ handledKinds) :
    ':' ∉ event.toList := by
  revert event
  decide

/-- **The key determines the type and the identifier.** -/
theorem eventKey_injective {a b : PaystackWebhookPayload} (ha : ':' ∉ a.event.toList)
    (hb : ':' ∉ b.event.toList) (h : eventKey a = eventKey b) :
    a.event = b.event ∧ a.dataOrEmpty.identifier = b.dataOrEmpty.identifier := by
  have htext : a.event.toList ++ ':' :: a.dataOrEmpty.identifier.toList =
      b.event.toList ++ ':' :: b.dataOrEmpty.identifier.toList := by
    have h' := congrArg String.toList h
    simpa [eventKey, String.toList_append] using h'
  have hevent : a.event = b.event := String.toList_injective (eq_of_append_cons ha hb htext)
  rw [hevent] at htext
  exact ⟨hevent, String.toList_injective (by simpa using htext)⟩

/-- Who took the key of an event was delivered, and is keyed by the same. -/
theorem taker_of_recorded (hx : Reachable env Guard.free x)
    (hplain : ∀ a, DeliveredIn env x a → ':' ∉ a.event.toList) (hacts : route payload ≠ pure false)
    (hrec : Recorded (eventKey payload) x.world) :
    ∃ a, DeliveredIn env x a ∧ a.event = payload.event ∧
      a.dataOrEmpty.identifier = payload.dataOrEmpty.identifier := by
  obtain ⟨i, hi⟩ := exists_storedBy hx hrec
  obtain ⟨p, a, hp, hdel, hkey⟩ := hi.delivers
  have ha : DeliveredIn env x a := ⟨p, List.mem_of_getElem? hp, hdel⟩
  exact ⟨a, ha, eventKey_injective (hplain a ha)
    (colon_notMem_of_handled (handled_of_route hacts)) hkey⟩

/-! ## Duplicates -/

/-- Where no event was delivered, none is stored. -/
theorem not_mem_of_silent (hx : Reachable env Guard.free x) (hnone : ∀ c, ¬ DeliveredIn env x c)
    (e : WebhookEvent) : e ∉ World.webhookEvents x.world := by
  intro he
  obtain ⟨i, hi⟩ := exists_storedBy hx ⟨e, he, rfl⟩
  obtain ⟨p, a, hp, hdel, -⟩ := hi.delivers
  exact hnone a ⟨p, List.mem_of_getElem? hp, hdel⟩

/-- **Once an event is delivered, every event of its key is a duplicate.** -/
theorem exists_duplicate {a b : PaystackWebhookPayload} (h : Deliverable env a b)
    (hkey : eventKey a = eventKey b) :
    ∃ x, Reachable env Guard.free x ∧ (∀ c, DeliveredIn env x c → c = a) ∧
      staleAt env b (World.clock x.world) = false ∧
      ∃ rawBody signature, verifyWebhookSignature env rawBody signature = true ∧
        env.parse rawBody = some b ∧
        Serves env (handlePaystackEvent env rawBody signature) x.world (.ok { duplicate := true })
          x.world := by
  obtain ⟨x, hx, hnone, ⟨rawBody, signature, hsig, hparse⟩, ⟨rawBody', signature', hsig', hparse'⟩,
    hauth, hfresh, hfresh'⟩ := h
  have hempty := not_mem_of_silent hx hnone
  have hnew : ¬ Recorded (eventKey a) x.world := fun ⟨e, he, _⟩ => hempty e he
  -- the delivery of `a` is cut off right after it stored the event
  have hfit : (Op.webhookEventCreate ⟨eventKey a, a.event, a⟩).fits { id := Demo.sale } x.world =
      true := List.all_eq_true.mpr fun e he => absurd he (hempty e)
  obtain ⟨t, ht, hstop⟩ := stops_recorded hfresh hnew hfit
  rw [← handlePaystackEvent_eq hsig hparse] at hstop
  have hadm : admits env (.paystackWebhook rawBody signature) x.world = true := by
    simp only [admits, hsig, hparse, if_true, Option.all_some, hauth]
  obtain ⟨y, hxy, hyw, hcalls⟩ := Partly.reaches (V := core env)
    (c := .paystackWebhook rawBody signature) hadm (partly_map (.inl hstop))
  have hrow (e : WebhookEvent) : e ∈ World.webhookEvents y.world →
      e = (WebhookEventCreate.mk (eventKey a) a.event a).row Demo.sale := by
    rw [hyw]
    exact fun he => ((Table.mem_create ht).mp he).resolve_left (hempty e)
  refine ⟨y, hx.trans hxy, ?_, by rw [hyw]; exact hfresh', rawBody', signature', hsig', hparse', ?_⟩
  · rintro c ⟨p, hp, hdel⟩
    have hcall : p.call ∈ y.procs.map Process.call := List.mem_map_of_mem hp
    rw [hcalls, List.mem_append, List.mem_singleton] at hcall
    rcases hcall with hold | hnow
    · obtain ⟨q, hq, hcall⟩ := List.mem_map.mp hold
      rw [← hcall] at hdel
      exact absurd ⟨q, hq, hdel⟩ (hnone c)
    · obtain ⟨body, sig, hcall, -, hbody⟩ := hdel
      rw [hnow] at hcall
      cases hcall
      exact Option.some.inj (hbody.symm.trans hparse)
  · rw [handlePaystackEvent_eq hsig' hparse']
    have hrec : Recorded (eventKey b) y.world := by
      rw [hyw]
      exact ⟨_, (Table.mem_create ht).mpr (.inr rfl), hkey⟩
    have hfit' : (Op.webhookEventCreate ⟨eventKey b, b.event, b⟩).fits { id := Demo.buyer } y.world =
        true := by
      refine List.all_eq_true.mpr fun e he => ?_
      rw [hrow e he]
      exact (by decide : (Demo.sale != Demo.buyer) = true)
    exact serves_duplicate (by rw [hyw]; exact hfresh') hrec hfit'

/-- **A duplicate was delivered before.** Where the types have no colon: if the identifiers tell what
the events are about, then whatever run delivers them keeps them apart; and of events Paystack can
deliver first, two that the identifiers do not tell apart are confused in some run. -/
theorem duplicate_alike_iff {events : Set PaystackWebhookPayload}
    (hplain : ∀ a ∈ events, ':' ∉ a.event.toList) :
    (KeysTell events → KeptApart env events) ∧
      ((∀ a ∈ events, ∀ b ∈ events, Deliverable env a b) →
        (KeptApart env events ↔ KeysTell events)) := by
  have happart : KeysTell events → KeptApart env events := by
    intro htell x hx hdelivered b hb rawBody signature hsig hparse hfresh hacts r w' h
    rw [handlePaystackEvent_eq hsig hparse] at h
    by_cases hrec : Recorded (eventKey b) x.world
    · obtain ⟨a, ha, hevent, hident⟩ := taker_of_recorded hx
        (fun a ha => hplain a (hdelivered a ha)) hacts hrec
      have halike : Alike a b := ⟨hevent, htell a (hdelivered a ha) b hb hacts hevent hident⟩
      exact ⟨fun _ => ⟨a, ha, halike⟩, fun hnone => absurd halike (hnone a ha)⟩
    · obtain ⟨events, a, v, hroute, rfl, -⟩ := receive_new (fun _ ho => ho) hfresh hrec h
      refine ⟨fun hdup => ?_, fun _ => ⟨events, a, v, hroute, rfl⟩⟩
      cases a <;> cases hdup
  refine ⟨happart, fun hdeliverable => ⟨fun hkept a ha b hb hacts hevent hident => ?_, happart⟩⟩
  have hkey : eventKey a = eventKey b := by rw [eventKey, eventKey, hevent, hident]
  obtain ⟨x, hx, honly, hfresh, rawBody, signature, hsig, hparse, h⟩ :=
    exists_duplicate (hdeliverable a ha b hb) hkey
  have hin (c : PaystackWebhookPayload) (hc : DeliveredIn env x c) : c ∈ events := by
    rw [honly c hc]
    exact ha
  obtain ⟨c, hc, halike⟩ := (hkept x hx hin b hb rawBody signature hsig hparse hfresh hacts _ _ h).1 rfl
  rw [honly c hc] at halike
  exact halike.2

namespace Demo

/-- The assignment of an account to this customer. -/
def assignment (customerCode : String) : PaystackWebhookPayload where
  event := "dedicatedaccount.assign.success"
  data := some ⟨none, none, none, none, none, some customerCode,
    some ⟨some (.num 1), some "0123456789", some "bank"⟩, none, none, none⟩

/-- The success of the charge under this reference. -/
def charged (reference : String) : PaystackWebhookPayload where
  event := "charge.success"
  data := some ⟨none, some reference, none, none, none, none, none, none, none, none⟩

/-- The successes of all charges. -/
def charges : Set PaystackWebhookPayload := fun a => ∃ reference, charged reference = a

/-- A configuration in which a body names what its event is about. -/
def naming (event : String → PaystackWebhookPayload) : Env := config fun body => some (event body)

variable (event : String → PaystackWebhookPayload) (body : String)

/-- Paystack opened a charge of this name, and the event of this body was delivered and processed. -/
def once : List (Label (core (naming event))) :=
  .drift (.charge body) :: .arrive (.paystackWebhook body "ab") :: serves _ 0 3

/-- It is delivered, served. -/
def deliver (w : World) : Option (Except Err WebhookResult × World) :=
  serveWith (handlePaystackEvent (naming event) body "ab") (List.replicate 4 { id := buyer }) w

/-- The body of a delivery. -/
def bodyOf : Call → Option String
  | .paystackWebhook rawBody _ => some rawBody
  | _ => none

/-- Every call is a delivery of this body. -/
def deliversOnly (x : Config (core (naming event))) : Bool :=
  x.procs.all fun p => bodyOf p.call == some body

end Demo

/-- Where every call delivers one body, its event is the only one delivered. -/
theorem eq_of_deliversOnly {event : String → PaystackWebhookPayload} {body : String}
    {x : Config (core (Demo.naming event))} (honly : Demo.deliversOnly event body x = true)
    {a : PaystackWebhookPayload} (ha : DeliveredIn _ x a) : a = event body := by
  obtain ⟨p, hp, rawBody, signature, hcall, -, hparse⟩ := ha
  have hbody := List.all_eq_true.mp honly p hp
  rw [hcall, Demo.bodyOf, beq_iff_eq, Option.some.injEq] at hbody
  rw [← hbody]
  exact (Option.some.inj hparse).symm

/-- **The second of two customers is not assigned an account.** -/
theorem assignment_lost : ¬ ∀ (env : Env) (x : Config (core env)) (rawBody signature : String)
    (payload : PaystackWebhookPayload) (r : Except Err WebhookResult) (w' : World),
    Reachable env Guard.free x → (∀ a, DeliveredIn env x a → a.event ∈ handledKinds) →
    verifyWebhookSignature env rawBody signature = true →
    env.parse rawBody = some payload → staleAt env payload (World.clock x.world) = false →
    route payload ≠ pure false → Serves env (handlePaystackEvent env rawBody signature) x.world r w' →
    r = .ok { duplicate := true } → ∃ a, DeliveredIn env x a ∧ Alike a payload := by
  intro hall
  have hrun : ((Config.run Guard.free (Demo.once Demo.assignment "CUS_1")
      ⟨World.initial, []⟩).map fun x => Demo.deliversOnly Demo.assignment "CUS_1" x &&
        (Demo.deliver Demo.assignment "CUS_2" x.world).any fun rw =>
          decide (rw.1.toOption = some { duplicate := true })) = some true := by decide
  obtain ⟨x, hx, htest⟩ := reachable_of_run hrun
  simp only [Bool.and_eq_true, decide_eq_true_eq, Option.any_eq_true] at htest
  obtain ⟨honly, ⟨r, w'⟩, hserve, hdup⟩ := htest
  obtain ⟨a, ha, -, hsubject⟩ := hall _ x _ _ (Demo.assignment "CUS_2") r w' hx
    (fun a ha => by rw [eq_of_deliversOnly honly ha]; decide) (by decide) rfl rfl
    (fun hno => by cases hno) (serves_of_serveWith hserve) (eq_ok_of_toOption hdup)
  rw [eq_of_deliversOnly honly ha] at hsubject
  exact absurd hsubject (by decide)

/-- Charges are told apart by their references: one that is reported twice is answered as a duplicate,
and was delivered before. -/
theorem duplicate_alike_iff_charge : ∃ (x : Config (core (Demo.naming Demo.charged)))
    (r : Except Err WebhookResult), Reachable _ Guard.free x ∧ r = .ok { duplicate := true } ∧
      ∃ a, DeliveredIn _ x a ∧ Alike a (Demo.charged "T_1") := by
  have hrun : ((Config.run Guard.free (Demo.once Demo.charged "T_1")
      ⟨World.initial, []⟩).map fun x => Demo.deliversOnly Demo.charged "T_1" x &&
        (Demo.deliver Demo.charged "T_1" x.world).any fun rw =>
          decide (rw.1.toOption = some { duplicate := true })) = some true := by decide
  obtain ⟨x, hx, htest⟩ := reachable_of_run hrun
  simp only [Bool.and_eq_true, decide_eq_true_eq, Option.any_eq_true] at htest
  obtain ⟨honly, ⟨r, w'⟩, hserve, hdup⟩ := htest
  have hr := eq_ok_of_toOption hdup
  have htell : KeysTell Demo.charges := by
    rintro _ ⟨a, rfl⟩ _ ⟨b, rfl⟩ - - hident
    rw [show a = b from hident]
  have hplain : ∀ a ∈ Demo.charges, ':' ∉ a.event.toList := by
    rintro _ ⟨a, rfl⟩
    exact colon_notMem_of_handled List.mem_cons_self
  have happart : KeptApart (Demo.naming Demo.charged) Demo.charges :=
    (duplicate_alike_iff hplain).1 htell
  refine ⟨x, r, hx, hr, (happart x hx (fun a ha => ⟨"T_1", (eq_of_deliversOnly honly ha).symm⟩)
    (Demo.charged "T_1") ⟨"T_1", rfl⟩ "T_1" "ab" (by decide) rfl rfl (fun hno => by cases hno) r w'
    (serves_of_serveWith hserve)).1 hr⟩

end Meduman
