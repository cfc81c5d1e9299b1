import Meduman.Model.Outbound

/-!
# What a delivery sends

A delivery sends the event it read to the endpoint of the event's merchant, signed with the secret of that
endpoint.

* `Sends` : the event, the endpoint and the secret behind a request that is sent
* **`code_sends`** : nothing else is sent
-/

set_option autoImplicit false

namespace Meduman.Outbound

open Effect

variable {env : Env} {h h' : History Op.Ans Err}

/-- The delivery asked and was answered. -/
abbrev Answered (h : History Op.Ans Err) (op : Op) (a : op.Ans) : Prop :=
  (⟨op, .ok a⟩ : Event Op.Ans Err) ∈ h

/-- The endpoint of a merchant was read, with its secret. -/
structure Resolved (env : Env) (h : History Op.Ans Err) (merchantId : Uuid) (endpoint : DeliveryEndpoint) :
    Prop where
  found : ∃ row, Answered h (.webhookEndpointFindUnique merchantId) (some row) ∧ row.status = .active ∧
    env.decryptSecret row.secretEnc = some endpoint.secret ∧ row.url = endpoint.url ∧
    row.livemode = endpoint.livemode

/-- The request of an event that was read, to an endpoint of its merchant that was read. -/
structure Sends (env : Env) (h : History Op.Ans Err) (request : WebhookRequest) (event : OutboundEvent)
    (endpoint : DeliveryEndpoint) : Prop where
  read : ∃ eventId, Answered h (.outboundEventFindUnique eventId) (some event)
  resolved : Resolved env h event.merchantId endpoint
  isPublic : env.assertPublicUrl endpoint.url (!endpoint.livemode) = none
  request : ∃ seconds, request =
    { url := endpoint.url, eventId := event.id
      signature := buildSignatureHeader env endpoint.secret seconds
        (env.stringify event.id event.type event.payload)
      body := env.stringify event.id event.type event.payload }

/-- Only such requests are sent. -/
def Sound (env : Env) (h : History Op.Ans Err) : Op → Prop
  | .fetch request => ∃ event endpoint, Sends env h request event endpoint
  | _ => True

theorem Resolved.suffix {merchantId : Uuid} {endpoint : DeliveryEndpoint}
    (hr : Resolved env h merchantId endpoint) (hs : h <:+ h') : Resolved env h' merchantId endpoint := by
  obtain ⟨row, hfound, hrow⟩ := hr.found
  exact ⟨row, hs.subset hfound, hrow⟩

section Programs

variable {α : Type} {P : Event Op.Ans Err → Prop}

/-- The operation sends nothing. -/
def Op.silent : Op → Prop
  | .fetch _ => False
  | _ => True

theorem sound_of_silent {op : Op} (hop : op.silent) : Sound env h op := by
  cases op with
  | fetch request => exact hop.elim
  | _ => trivial

theorem silent_sound {p : Program α} (hp : p.Uses Op.silent) :
    p.Along P (Sound env) (fun _ _ => True) h :=
  hp.along (fun _ _ => sound_of_silent) fun _ _ _ => trivial

theorem recordFailure_silent (event : OutboundEvent) (err : Err) :
    (recordFailure env event err).Uses Op.silent := by
  cases err with
  | badRequest message => exact uses_perform trivial
  | prisma message =>
      refine uses_bind (uses_perform trivial) fun _ => ?_
      split <;> trivial
  | plain message =>
      refine uses_bind (uses_perform trivial) fun _ => ?_
      split <;> trivial

theorem resolveForDelivery_gives (merchantId : Uuid) :
    (resolveForDelivery env merchantId).Gives P (Sound env)
      (fun found h' => ∀ endpoint, found = some endpoint → Resolved env h' merchantId endpoint) h := by
  refine gives_bind (R := fun a h' => Answered h' (.webhookEndpointFindUnique merchantId) a)
    (gives_perform _ trivial fun a _ => List.mem_cons_self) fun found h₁ _ hfound => ?_
  cases found with
  | none => exact gives_pure fun _ hno => by cases hno
  | some row =>
      dsimp only
      split
      · exact gives_pure fun _ hno => by cases hno
      · rename_i hactive
        split
        · exact gives_throw _
        · rename_i secret hsecret
          refine gives_pure fun endpoint hsome => ?_
          cases hsome
          exact ⟨row, hfound, not_not.mp hactive, hsecret, rfl, rfl⟩

theorem send_sound {event : OutboundEvent} {endpoint : DeliveryEndpoint} {eventId : Uuid}
    (hread : Answered h (.outboundEventFindUnique eventId) (some event))
    (hresolved : Resolved env h event.merchantId endpoint) :
    (send env event endpoint).Gives P (Sound env) (fun _ _ => True) h := by
  unfold send
  split
  · exact gives_throw _
  · rename_i hpublic
    refine gives_bind (R := fun _ _ => True) (gives_perform _ trivial fun _ _ => trivial)
      fun now h₁ hs₁ _ => ?_
    have hsends : Sends env h₁
        { url := endpoint.url, eventId := event.id
          signature := buildSignatureHeader env endpoint.secret (now / 1000)
            (env.stringify event.id event.type event.payload)
          body := env.stringify event.id event.type event.payload } event endpoint :=
      ⟨⟨eventId, hs₁.subset hread⟩, hresolved.suffix hs₁, hpublic, now / 1000, rfl⟩
    refine gives_bind (R := fun _ _ => True)
      (gives_perform _ ⟨event, endpoint, hsends⟩ fun _ _ => trivial) fun status h₂ _ _ => ?_
    split
    · exact gives_throw _
    · refine gives_bind (R := fun _ _ => True) (gives_perform _ trivial fun _ _ => trivial)
        fun deliveredAt h₃ _ _ => ?_
      exact gives_perform _ trivial fun _ _ => trivial

theorem deliver_sound (eventId : Uuid) : (deliver env eventId).Gives P (Sound env) (fun _ _ => True) h := by
  refine gives_bind (R := fun a h' => Answered h' (.outboundEventFindUnique eventId) a)
    (gives_perform _ trivial fun a _ => List.mem_cons_self) fun found h₁ _ hfound => ?_
  cases found with
  | none => exact gives_pure trivial
  | some event =>
      dsimp only
      split
      · exact gives_pure trivial
      · refine gives_bind (resolveForDelivery_gives event.merchantId) fun endpoint h₂ hs₂ hresolved => ?_
        cases endpoint with
        | none => exact gives_perform _ trivial fun _ _ => trivial
        | some endpoint =>
            rw [Prog.Gives, along_tryCatch]
            refine (send_sound (hs₂.subset hfound) (hresolved endpoint rfl)).mono fun r h₃ _ => ?_
            cases r with
            | ok _ => exact fun _ _ => trivial
            | error err =>
                exact (silent_sound (recordFailure_silent event err)).mono fun _ _ _ _ _ => trivial

theorem process_sound (eventId : Uuid) : (process env eventId).Along P (Sound env) (fun _ _ => True) h := by
  refine Prog.Along.mono (Q := fun r h' => ∀ a, r = .ok a → True) ?_ fun _ _ _ => trivial
  refine gives_bind (R := fun _ _ => True) (gives_perform _ trivial fun _ _ => trivial)
    fun start h₁ _ _ => ?_
  refine gives_bind (R := fun _ _ => True) ?_ fun delivered h₂ _ _ => ?_
  · rw [Prog.Gives, along_tryCatch]
    refine Prog.Along.mono (Q := fun _ _ => True) ?_ fun r h' _ => ?_
    · rw [along_bind]
      refine (deliver_sound eventId).mono fun r h' _ => ?_
      cases r <;> trivial
    · cases r with
      | ok _ => exact fun _ _ => trivial
      | error _ => exact fun _ _ => trivial
  · split
    · exact gives_perform _ trivial fun _ _ => trivial
    · exact gives_perform _ trivial fun _ _ => trivial

theorem enqueueEach_silent (ids : List Uuid) : (enqueueEach ids).Uses Op.silent := by
  induction ids with
  | nil => trivial
  | cons id ids ih => exact uses_bind (uses_perform trivial) fun _ => ih

theorem redispatchPending_silent (graceSeconds : Int) :
    (redispatchPending graceSeconds).Uses Op.silent := by
  refine uses_bind (uses_perform trivial) fun now => ?_
  refine uses_bind (uses_perform trivial) fun rows => ?_
  exact uses_bind (enqueueEach_silent rows) fun _ => trivial

/-- **Every call sends events that were read, to endpoints of their merchants.** -/
theorem code_sends (env : Env) (c : Call) :
    (code env c).Along P (Sound env) (fun _ _ => True) h := by
  cases c with
  | dispatch eventId =>
      refine silent_sound (uses_bind (uses_tryCatch (uses_perform trivial) fun _ => trivial)
        fun _ => trivial)
  | process eventId =>
      rw [code, Prog.map_eq, along_bind]
      refine (process_sound eventId).mono fun r h' _ => ?_
      cases r <;> trivial
  | redispatchPending graceSeconds =>
      exact silent_sound (uses_bind (redispatchPending_silent graceSeconds) fun _ => trivial)

end Programs

end Meduman.Outbound
