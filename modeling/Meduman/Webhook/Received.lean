import Meduman.Core.Served

/-!
# Received events

How the processor takes an event in: it drops a stale one, answers a recorded one as a duplicate, and
routes a new one.

* `receive` : the processor behind the signature
* `Recorded` : an event of this key has its row
* `receive_duplicate`, `receive_new` : an undisturbed delivery
* `serves_duplicate`, `stops_recorded` : deliveries there are: one answered as a duplicate, one cut off
  after it stored the event
-/

set_option autoImplicit false

namespace Meduman

open Effect Prog

/-- What the processor does with a signed payload. -/
def receive (env : Env) (payload : PaystackWebhookPayload) : Program WebhookResult := do
  if ← isStale env payload.dataOrEmpty then pure { stale := true }
  else
    match ← recordEvent payload with
    | none => pure { duplicate := true }
    | some webhookEventId => processEvent webhookEventId payload

theorem handlePaystackEvent_eq {env : Env} {rawBody signature : String}
    {payload : PaystackWebhookPayload}
    (hsig : verifyWebhookSignature env rawBody signature = true)
    (hparse : env.parse rawBody = some payload) :
    handlePaystackEvent env rawBody signature = receive env payload := by
  simp only [handlePaystackEvent, hsig, hparse, Bool.not_true, Bool.false_eq_true, if_false]
  rfl

/-- An event of this key has its row. -/
def Recorded (key : String) (w : World) : Prop := ∃ e ∈ w.webhookEvents, e.providerEventId = key

/-- The event's timestamp is older than the window. -/
def staleAt (env : Env) (payload : PaystackWebhookPayload) (now : Int) : Bool :=
  match payload.dataOrEmpty.stamp env with
  | none => false
  | some ts => env.webhookMaxAgeSeconds * 1000 < now - ts

variable {env : Env} {u w w' : World} {payload : PaystackWebhookPayload}

theorem isStale_serves {r : Except Err Bool}
    (h : Serves env (isStale env payload.dataOrEmpty) w r w') :
    r = .ok (staleAt env payload w.clock) ∧ w' = w := by
  unfold isStale at h
  unfold staleAt
  cases hstamp : payload.dataOrEmpty.stamp env with
  | none =>
      rw [hstamp] at h
      exact h
  | some ts =>
      rw [hstamp] at h
      obtain ⟨s, -, h⟩ := serves_await h
      exact h

/-! ## The dedupe row -/

theorem create_recorded {id : Uuid} (h : Recorded (eventKey payload) w) :
    w.webhookEvents.create ((WebhookEventCreate.mk (eventKey payload) payload.event payload).row id) =
      none := by
  obtain ⟨e, he, hkey⟩ := h
  cases hcreate : w.webhookEvents.create _ with
  | none => rfl
  | some t =>
      have hclash := Table.create_no_clash hcreate he
      simp [Constrained.clash, WebhookEventCreate.row, hkey] at hclash

theorem create_unrecorded {s : Supply} (h : ¬ Recorded (eventKey payload) w)
    (hfit : (Op.webhookEventCreate ⟨eventKey payload, payload.event, payload⟩).fits s w = true) :
    ∃ t, w.webhookEvents.create
      ((WebhookEventCreate.mk (eventKey payload) payload.event payload).row s.id) = some t := by
  refine Table.create_isSome fun e he => ?_
  have hid : e.id ≠ s.id := by simpa using List.all_eq_true.mp hfit e he
  have hkey : e.providerEventId ≠ eventKey payload := fun heq => h ⟨e, he, heq⟩
  simp [Constrained.clash, WebhookEventCreate.row, hid, hkey]

theorem isStale_ends {ok : Outcome → Prop} {s : Supply} (hs : ok (.served s)) :
    (isStale env payload.dataOrEmpty).Ends (core env) ok w (.ok (staleAt env payload w.clock)) w := by
  unfold isStale staleAt
  cases payload.dataOrEmpty.stamp env with
  | none => exact ⟨rfl, rfl⟩
  | some ts => exact ⟨.served s, _, _, hs, rfl, rfl, rfl⟩

/-- A key that is free can be taken. -/
theorem recordEvent_ends {ok : Outcome → Prop} {s : Supply} (hs : ok (.served s))
    (hnew : ¬ Recorded (eventKey payload) w)
    (hfit : (Op.webhookEventCreate ⟨eventKey payload, payload.event, payload⟩).fits s w = true) :
    ∃ t, w.webhookEvents.create
        ((WebhookEventCreate.mk (eventKey payload) payload.event payload).row s.id) = some t ∧
      (recordEvent payload).Ends (core env) ok w (.ok (some s.id)) { w with webhookEvents := t } := by
  obtain ⟨t, ht⟩ := create_unrecorded hnew hfit
  refine ⟨t, ht, (ends_tryCatch _ _ _).mpr ⟨.ok (some s.id), { w with webhookEvents := t }, ?_, rfl, rfl⟩⟩
  refine ⟨.served s, _, _, hs, if_pos hfit, ?_⟩
  simp only [ht]
  exact ⟨rfl, rfl⟩

/-- A key that is taken is found taken. -/
theorem recordEvent_taken {s : Supply} (hrec : Recorded (eventKey payload) w)
    (hfit : (Op.webhookEventCreate ⟨eventKey payload, payload.event, payload⟩).fits s w = true) :
    Serves env (recordEvent payload) w (.ok none) w := by
  refine (ends_tryCatch _ _ _).mpr ⟨.error uniqueViolation, w, ?_, rfl, rfl⟩
  refine ⟨.served s, _, _, ⟨s, rfl⟩, if_pos hfit, ?_⟩
  simp only [create_recorded hrec]
  exact ⟨rfl, rfl⟩

/-- Recording an event: none when its key is taken, its row otherwise. -/
theorem recordEvent_serves {r : Except Err (Option Uuid)}
    (h : Serves env (recordEvent payload) w r w') :
    (Recorded (eventKey payload) w ∧ r = .ok none ∧ w' = w) ∨
    (¬ Recorded (eventKey payload) w ∧ ∃ id t, r = .ok (some id) ∧
      w.webhookEvents.create
        ((WebhookEventCreate.mk (eventKey payload) payload.event payload).row id) = some t ∧
      w' = { w with webhookEvents := t }) := by
  obtain ⟨a, v, hp, hh⟩ := (ends_tryCatch _ _ _).mp h
  obtain ⟨s, hfit, hp⟩ := serves_await hp
  by_cases hrec : Recorded (eventKey payload) w
  · simp only [effect, create_recorded hrec, after_error] at hp
    obtain ⟨rfl, rfl⟩ := hp
    exact .inl ⟨hrec, hh⟩
  · obtain ⟨t, ht⟩ := create_unrecorded hrec hfit
    simp only [effect, ht, after_ok] at hp
    obtain ⟨rfl, rfl⟩ := hp
    obtain ⟨rfl, rfl⟩ := hh
    exact .inr ⟨hrec, s.id, t, rfl, ht, rfl⟩

/-- Noting how an event went changes no key. -/
theorem recorded_update {id : Uuid} {result : String} {t : Table WebhookEvent}
    {key : String} (hwrite : u.webhookEvents.update (fun e => e.id == id)
      (fun e => { e with processingResult := some result }) = some t) :
    Recorded key { u with webhookEvents := t } ↔ Recorded key u := by
  constructor
  · rintro ⟨e, he, hkey⟩
    obtain ⟨e₀, he₀, rfl⟩ := (Table.mem_update hwrite).mp he
    refine ⟨e₀, he₀, ?_⟩
    split at hkey <;> exact hkey
  · rintro ⟨e, he, hkey⟩
    cases hsel : e.id == id with
    | true => exact ⟨_, Table.mem_update_of hwrite he hsel, hkey⟩
    | false => exact ⟨e, Table.mem_update_of_not hwrite he hsel, hkey⟩

/-! ## The routed event -/

/-- Worlds that agree on everything but the event rows. -/
structure SameButEvents (u w : World) : Prop where
  transactions : w.transactions = u.transactions
  payments : w.payments = u.payments
  payouts : w.payouts = u.payouts
  paystack : w.paystack = u.paystack
  recorded : ∀ key, Recorded key w ↔ Recorded key u

theorem webhookEventUpdate_serves {id : Uuid} {result : String} {r : Except Err Unit}
    (h : Serves env (await (.webhookEventUpdate id result)) w r w') :
    r = .ok () ∧ SameButEvents w w' := by
  obtain ⟨o, ho, he⟩ := (ends_perform _ _).mp h
  obtain ⟨s, -, heff⟩ := exec_of_served ho he
  obtain ⟨t, hwrite⟩ : ∃ t, w.webhookEvents.update (fun e => e.id == id)
      (fun e => { e with processingResult := some result }) = some t := by
    refine Table.update_isSome fun a _ b _ => ?_
    split <;> split <;> rfl
  simp only [effect, hwrite] at heff
  cases heff
  exact ⟨rfl, rfl, rfl, rfl, rfl, fun key => recorded_update hwrite⟩

/-- The outcome of routing becomes the reply. -/
def WebhookResult.ofRoute : Except Err Bool → Except Err WebhookResult
  | .ok handled => .ok { handled := some handled }
  | .error e => .error e

theorem eq_ok_of_toOption {r : Except Err WebhookResult} {result : WebhookResult}
    (h : r.toOption = some result) : r = .ok result := by
  cases r with
  | ok a => exact congrArg Except.ok (Option.some.inj h)
  | error e => cases h

theorem processEvent_serves {good : Outcome → Prop} (hgood : ∀ o, good o → Served o) {id : Uuid}
    {r : Except Err WebhookResult} (h : (processEvent id payload).Ends (core env) good w r w') :
    ∃ a v, (route payload).Ends (core env) good w a v ∧ r = WebhookResult.ofRoute a ∧
      SameButEvents v w' := by
  obtain ⟨a, v, hp, hh⟩ := (ends_tryCatch _ _ _).mp h
  obtain ⟨b, v', hroute, hp⟩ := (ends_bind _ _ _).mp hp
  refine ⟨b, v', hroute, ?_⟩
  cases b with
  | ok handled =>
      obtain ⟨c, z, hupd, hp⟩ := (ends_bind _ _ _).mp hp
      obtain ⟨rfl, hsame⟩ := webhookEventUpdate_serves (hupd.mono hgood)
      obtain ⟨rfl, rfl⟩ := hp
      obtain ⟨rfl, rfl⟩ := hh
      exact ⟨rfl, hsame⟩
  | error e =>
      obtain ⟨rfl, rfl⟩ := hp
      obtain ⟨c, z, hupd, hh⟩ := (ends_bind _ _ _).mp hh
      obtain ⟨rfl, hsame⟩ := webhookEventUpdate_serves (hupd.mono hgood)
      obtain ⟨rfl, rfl⟩ := hh
      exact ⟨rfl, hsame⟩

/-! ## A delivery -/

/-- A new event is recorded and routed. -/
theorem receive_new {good : Outcome → Prop} (hgood : ∀ o, good o → Served o)
    {r : Except Err WebhookResult} (hfresh : staleAt env payload w.clock = false)
    (hnew : ¬ Recorded (eventKey payload) w) (h : (receive env payload).Ends (core env) good w r w') :
    ∃ t a v, (route payload).Ends (core env) good { w with webhookEvents := t } a v ∧
      r = WebhookResult.ofRoute a ∧ SameButEvents v w' := by
  obtain ⟨a, v, hp, h⟩ := (ends_bind _ _ _).mp h
  obtain ⟨rfl, rfl⟩ := isStale_serves (hp.mono hgood)
  rw [hfresh] at h
  obtain ⟨b, v', hrecord, hrest⟩ := (ends_bind _ _ _).mp h
  rcases recordEvent_serves (hrecord.mono hgood) with ⟨hrec, -⟩ | ⟨-, id, t, rfl, -, rfl⟩
  · exact absurd hrec hnew
  · obtain ⟨a, v, hroute, hr, hsame⟩ := processEvent_serves hgood hrest
    exact ⟨t, a, v, hroute, hr, hsame⟩

/-- An event whose key is taken can be answered as a duplicate. -/
theorem serves_duplicate {s : Supply} (hfresh : staleAt env payload w.clock = false)
    (hrec : Recorded (eventKey payload) w)
    (hfit : (Op.webhookEventCreate ⟨eventKey payload, payload.event, payload⟩).fits s w = true) :
    Serves env (receive env payload) w (.ok { duplicate := true }) w := by
  have hstale : Serves env (isStale env payload.dataOrEmpty) w (.ok false) w :=
    hfresh ▸ isStale_ends ⟨s, rfl⟩
  refine (ends_bind _ _ _).mpr ⟨_, _, hstale, ?_⟩
  exact (ends_bind _ _ _).mpr ⟨_, _, recordEvent_taken hrec hfit, rfl, rfl⟩

/-- Processing an event takes an operation, so it can be cut off before it does anything. -/
theorem stops_processEvent {id : Uuid} : (processEvent id payload).Stops (core env) w w := by
  unfold processEvent
  cases route payload with
  | done r => cases r <;> exact .inl rfl
  | call op k => exact .inl rfl

/-- An event whose key is free can be cut off right after it was stored. -/
theorem stops_recorded {s : Supply} (hfresh : staleAt env payload w.clock = false)
    (hnew : ¬ Recorded (eventKey payload) w)
    (hfit : (Op.webhookEventCreate ⟨eventKey payload, payload.event, payload⟩).fits s w = true) :
    ∃ t, w.webhookEvents.create
        ((WebhookEventCreate.mk (eventKey payload) payload.event payload).row s.id) = some t ∧
      (receive env payload).Stops (core env) w { w with webhookEvents := t } := by
  have hstale : (isStale env payload.dataOrEmpty).Ends (core env) (anyOutcome (core env)) w
      (.ok false) w := hfresh ▸ isStale_ends (s := s) trivial
  obtain ⟨t, ht, hrecord⟩ : ∃ t, w.webhookEvents.create
      ((WebhookEventCreate.mk (eventKey payload) payload.event payload).row s.id) = some t ∧
      (recordEvent payload).Ends (core env) (anyOutcome (core env)) w (.ok (some s.id))
        { w with webhookEvents := t } := recordEvent_ends trivial hnew hfit
  refine ⟨t, ht, (stops_bind _ _).mpr (.inr ⟨_, _, hstale, ?_⟩)⟩
  exact (stops_bind _ _).mpr (.inr ⟨_, _, hrecord, stops_processEvent⟩)

end Meduman
