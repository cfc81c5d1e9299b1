import Meduman.Effect.Task
import Meduman.Model.Chat

/-!
# Recorded and enqueued

A message is recorded before it is enqueued, and a recorded one is taken for a duplicate when the batch
comes again.

* `acceptsId_iff` : the queue takes the job ids of messages whose own id has one colon
* `AddsNext`, `ingest_along` : what is recorded is enqueued by the next operation
* `unbroken` : nothing comes between the two
* **`accepted_enqueued`** : then what is recorded, and what was answered, is enqueued
* `accepted_lost` : otherwise it may never be
-/

set_option autoImplicit false

namespace Meduman.Chat

open Effect

abbrev Hist := History Op.Ans Err

/-! ## Job ids -/

theorem count_colon_platform (p : ChatPlatform) : p.text.toList.count ':' = 0 := by
  cases p <;> decide

/-- **The queue takes the job of a message just if the message's id has one colon.** -/
theorem acceptsId_iff (p : ChatPlatform) (id : String) :
    acceptsId (chatInboundJobId p id) = true ↔ id.toList.count ':' = 1 := by
  have hcount : (chatInboundJobId p id).toList.count ':' = id.toList.count ':' + 1 := by
    simp only [chatInboundJobId, String.toList_append, List.count_append, count_colon_platform]
    rw [show "chat-in.".toList.count ':' = 0 by decide, show ":".toList.count ':' = 1 by decide]
    omega
  simp only [acceptsId, hcount, Bool.or_eq_true, beq_iff_eq]
  omega

theorem head_text_append (p : ChatPlatform) (l : List Char) :
    (p.text.toList ++ l).head? = p.text.toList.head? := by
  rw [List.head?_append]
  cases p <;> rfl

/-- The platforms' names differ in their first letter. -/
theorem platform_eq_of_head {p p' : ChatPlatform}
    (h : p.text.toList.head? = p'.text.toList.head?) : p = p' := by
  revert h
  cases p <;> cases p' <;> decide

theorem chatInboundJobId_inj {p p' : ChatPlatform} {id id' : String}
    (h : chatInboundJobId p id = chatInboundJobId p' id') : p = p' ∧ id = id' := by
  have hlist := congrArg String.toList h
  simp only [chatInboundJobId, String.toList_append, List.append_assoc] at hlist
  replace hlist := List.append_cancel_left hlist
  obtain rfl : p = p' := by
    have hhead := congrArg List.head? hlist
    rw [head_text_append, head_text_append] at hhead
    exact platform_eq_of_head hhead
  exact ⟨rfl, String.toList_inj.mp (List.append_cancel_left (List.append_cancel_left hlist))⟩

theorem count_colon_digits (n : Nat) : n.repr.toList.count ':' = 0 := by
  rw [Nat.toList_repr, List.count_eq_zero]
  intro hmem
  exact absurd (Nat.isDigit_of_mem_toDigits (by decide) (by decide) hmem) (by decide)

theorem count_colon_int (n : Int) : (toString n).toList.count ':' = 0 := by
  cases n with
  | ofNat n => exact count_colon_digits n
  | negSucc n =>
      rw [show toString (Int.negSucc n) = "-" ++ (n + 1).repr from rfl, String.toList_append,
        List.count_append, count_colon_digits]
      decide

/-- The queue takes the job of every Telegram message that is no button press. -/
theorem telegram_accepted {body : WebhookBody} (hmsg : body.callback_query = none) :
    ∀ m ∈ parseTelegram body, acceptsId (chatInboundJobId m.platform m.providerMessageId) = true := by
  intro m hm
  unfold parseTelegram at hm
  rw [hmsg] at hm
  split at hm
  · cases hm
  · split at hm
    · rename_i heq
      cases heq
    · split at hm
      · cases hm
      · split at hm
        · cases hm
        · cases List.mem_singleton.mp hm
          rw [acceptsId_iff, String.toList_append, List.count_append, count_colon_int]
          decide

/-! ## What an ingestion does next -/

/-- The message was recorded by the newest operation. -/
def justRecorded : Hist → Option ChatInboundEventCreate
  | ⟨.chatInboundEventCreate d, .ok _⟩ :: _ => some d
  | _ => none

/-- What was just recorded is enqueued next, and nothing else is. -/
def AddsNext (h : Hist) : Op → Prop
  | .chatInboundEventCreate _ => justRecorded h = none
  | .chatQueueAdd jobId data => ∃ d, justRecorded h = some d ∧ data.platform = d.platform ∧
      data.providerMessageId = d.providerMessageId ∧
      jobId = chatInboundJobId data.platform data.providerMessageId

/-- The message was recorded, or found to be. -/
def Known (h : Hist) (m : InboundChatMessage) : Prop :=
  ∃ d a, (⟨.chatInboundEventCreate d, a⟩ : Event Op.Ans Err) ∈ h ∧ d.platform = m.platform ∧
    d.providerMessageId = m.providerMessageId ∧ (a = .ok () ∨ a = .error .p2002)

variable {h : Hist} {P : Event Op.Ans Err → Prop}

/-- Nothing is left to be enqueued, everything known stays known, and so is the batch. -/
def Ingested {α : Type} (messages : List InboundChatMessage) (h : Hist) (r : Except Err α)
    (h' : Hist) : Prop :=
  justRecorded h' = none ∧ (∀ m, Known h m → Known h' m) ∧
    ∀ a, r = .ok a → ∀ m ∈ messages, Known h' m

theorem known_cons {e : Event Op.Ans Err} {m : InboundChatMessage} (hm : Known h m) :
    Known (e :: h) m := by
  obtain ⟨d, a, hmem, hrest⟩ := hm
  exact ⟨d, a, List.mem_cons_of_mem _ hmem, hrest⟩

/-- Recording a message. -/
theorem recordInbound_along {m : InboundChatMessage} {raw : Option WebhookBody}
    {Q : Except Err Bool → Hist → Prop} (hh : justRecorded h = none)
    (hnew : ∀ d, d.platform = m.platform → d.providerMessageId = m.providerMessageId →
      Q (.ok true) (⟨.chatInboundEventCreate d, .ok ()⟩ :: h))
    (hold : ∀ d, d.platform = m.platform → d.providerMessageId = m.providerMessageId →
      Q (.ok false) (⟨.chatInboundEventCreate d, .error .p2002⟩ :: h))
    (hfail : ∀ d e, Q (.error e) (⟨.chatInboundEventCreate d, .error e⟩ :: h)) :
    (recordInbound m raw).Along P AddsNext Q h := by
  unfold recordInbound
  rw [along_tryCatch, Prog.map_eq, along_perform_bind]
  refine ⟨hh, fun e _ => ?_, fun _ _ => hnew _ rfl rfl⟩
  rw [rescue_error]
  split
  · exact hold _ rfl rfl
  · exact hfail _ _

/-- **What is recorded is enqueued next,** and in the end the whole batch is known. -/
theorem ingestMessages_along (raw : Option WebhookBody) (messages : List InboundChatMessage)
    (accepted duplicate : Nat) (hh : justRecorded h = none) :
    (ingestMessages raw messages accepted duplicate).Along P AddsNext (Ingested messages h) h := by
  induction messages generalizing h accepted duplicate with
  | nil => exact ⟨hh, fun _ hm => hm, fun _ _ m hm => absurd hm List.not_mem_nil⟩
  | cons m messages ih =>
      have extend : ∀ {e : Event Op.Ans Err} {h₁ : Hist}, (∀ m', Known h m' → Known h₁ m') →
          Known (e :: h₁) m → ∀ (r : Except Err (Nat × Nat)) h', Ingested messages (e :: h₁) r h' →
            Ingested (m :: messages) h r h' := by
        intro e h₁ hsub hm r h' hr
        refine ⟨hr.1, fun m' hm' => hr.2.1 m' (known_cons (hsub m' hm')), fun a ha m' hm' => ?_⟩
        rcases List.mem_cons.mp hm' with rfl | hm'
        · exact hr.2.1 m' hm
        · exact hr.2.2 a ha m' hm'
      unfold ingestMessages
      rw [along_bind]
      refine recordInbound_along hh (fun d hp hid => ?_) (fun d hp hid => ?_) fun d e => ?_
      · have hknown : Known (⟨.chatInboundEventCreate d, .ok ()⟩ :: h) m :=
          ⟨d, _, List.mem_cons_self, hp, hid, .inl rfl⟩
        rw [then_ok]
        simp only [Bool.not_true, Bool.false_eq_true, if_false]
        unfold enqueueChatInbound
        rw [along_perform_bind]
        refine ⟨⟨d, rfl, hp.symm, hid.symm, rfl⟩,
          fun e _ => ⟨rfl, fun m' hm' => known_cons (known_cons hm'), by rintro a ⟨⟩⟩, fun _ _ => ?_⟩
        exact (ih _ _ rfl).mono (extend (fun _ => known_cons) (known_cons hknown))
      · have hknown : Known (⟨.chatInboundEventCreate d, .error .p2002⟩ :: h) m :=
          ⟨d, _, List.mem_cons_self, hp, hid, .inr rfl⟩
        rw [then_ok]
        exact (ih _ _ rfl).mono (extend (fun _ hm' => hm') hknown)
      · exact ⟨rfl, fun _ => known_cons, by rintro a ⟨⟩⟩

variable {env : Env}

/-- The messages of a delivery. -/
def messages (env : Env) (input : IngestInput) : List InboundChatMessage :=
  (env.get input.platform).elim [] fun adapter => adapter.parse input.body

theorem ingest_along (input : IngestInput) :
    (ingest env input).Along P AddsNext (Ingested (messages env input) []) [] := by
  have throws : ∀ e, Ingested (messages env input) [] (.error e : Except Err ChatWebhookResult) [] :=
    fun e => ⟨rfl, fun _ hm => hm, by rintro a ⟨⟩⟩
  unfold ingest
  split
  · exact throws _
  · rename_i adapter hget
    split
    · exact throws _
    · rw [along_bind]
      refine (ingestMessages_along input.body _ 0 0 rfl).mono fun r h' hr => ?_
      rw [messages, hget, Option.elim_some]
      cases r with
      | error e => exact ⟨hr.1, hr.2.1, by rintro a ⟨⟩⟩
      | ok counts => exact ⟨hr.1, hr.2.1, fun _ _ => hr.2.2 _ rfl⟩

/-! ## The invariant -/

/-- A job for this message was added. -/
def Enqueued (w : World) (platform : ChatPlatform) (providerMessageId : String) : Prop :=
  ∃ j ∈ w.chatJobs, j.data.platform = platform ∧ j.data.providerMessageId = providerMessageId

/-- A recorded message gets a job id the queue takes, its record is answered, and its enqueue neither
fails nor is cut off. -/
def unbroken (env : Env) : Policy (gateway env) := fun x l =>
  match l with
  | .perform i o => match x.pending i, o with
      | some (_, ⟨.chatInboundEventCreate _, _⟩), .lost _ _ => false
      | some (_, ⟨.chatQueueAdd jobId _, _⟩), o => acceptsId jobId && o.supply.isSome
      | _, _ => true
  | .crash i => match x.pending i with
      | some (_, ⟨.chatQueueAdd .., _⟩) => false
      | _ => true
  | _ => true

variable {x y : Config (gateway env)} {u w : World}

/-- The recorded message is enqueued, or was just recorded by a call that was not cut off. -/
def HandedOn (x : Config (gateway env)) (e : ChatInboundEvent) : Prop :=
  Enqueued x.world e.platform e.providerMessageId ∨ ∃ p ∈ x.procs, p.prog ≠ none ∧
    ∃ d, justRecorded p.hist = some d ∧ d.platform = e.platform ∧
      d.providerMessageId = e.providerMessageId

/-- Every recorded message is handed on, under its own job id. -/
structure Handed (x : Config (gateway env)) : Prop where
  ids : ∀ j ∈ World.chatJobs x.world, j.id = chatInboundJobId j.data.platform
    j.data.providerMessageId
  handed : ∀ e ∈ World.inboundEvents x.world, HandedOn x e

theorem handed_initial : Handed (⟨World.initial, []⟩ : Config (gateway env)) where
  ids _ hj := absurd hj List.not_mem_nil
  handed e he := absurd he (Table.not_mem_empty e)

/-- What an operation leaves of the jobs and the records. -/
theorem jobs_change {op : Op} {o : Fate Uuid} {a : Except Err op.Ans}
    (h : backend.exec op o u = some (a, w)) :
    (∀ j ∈ w.chatJobs, j ∈ u.chatJobs ∨ ∃ data, op = .chatQueueAdd j.id data ∧ j.data = data) ∧
    ∀ j ∈ u.chatJobs, j ∈ w.chatJobs := by
  rcases Backend.exec_cases h with ⟨rfl, -⟩ | ⟨s, -, -, rfl, -⟩
  · exact ⟨fun j hj => .inl hj, fun j hj => hj⟩
  · cases op with
    | chatInboundEventCreate d =>
        simp only [backend, effect]
        split <;> exact ⟨fun j hj => .inl hj, fun j hj => hj⟩
    | chatQueueAdd jobId data =>
        simp only [backend, effect]
        split
        · exact ⟨fun j hj => .inl hj, fun j hj => hj⟩
        · split
          · exact ⟨fun j hj => .inl hj, fun j hj => hj⟩
          · refine ⟨fun j hj => ?_, fun j hj => List.mem_append_left _ hj⟩
            rcases List.mem_append.mp hj with hj | hj
            · exact .inl hj
            · cases List.mem_singleton.mp hj
              exact .inr ⟨data, rfl, rfl⟩

theorem events_change {op : Op} {o : Fate Uuid} {a : Except Err op.Ans}
    (h : backend.exec op o u = some (a, w)) :
    w.inboundEvents = u.inboundEvents ∨ ∃ d s, op = .chatInboundEventCreate d ∧
      o.supply = some s ∧ u.inboundEvents.create (d.row s) = some w.inboundEvents := by
  rcases Backend.exec_cases h with ⟨rfl, -⟩ | ⟨s, ho, -, rfl, -⟩
  · exact .inl rfl
  · cases op with
    | chatInboundEventCreate d =>
        simp only [backend, effect]
        split
        · exact .inl rfl
        · exact .inr ⟨d, s, rfl, ho, ‹_›⟩
    | chatQueueAdd jobId data =>
        simp only [backend, effect]
        split
        · exact .inl rfl
        · split <;> exact .inl rfl

/-- The queue has a job under an id it took. -/
theorem added {jobId : String} {data : ChatInboundJobData} {o : Fate Uuid} {a : Except Err Unit}
    (h : backend.exec (.chatQueueAdd jobId data) o u = some (a, w))
    (hid : acceptsId jobId = true) (ho : o.supply.isSome = true) :
    ∃ j ∈ w.chatJobs, j.id = jobId := by
  obtain ⟨s, hs⟩ := Option.isSome_iff_exists.mp ho
  rw [Backend.exec_done h hs]
  simp only [backend, effect, hid, Bool.not_true, Bool.false_eq_true, if_false]
  split
  · rename_i hany
    obtain ⟨j, hj, hboth⟩ := List.any_eq_true.mp hany
    exact ⟨j, hj, by simpa using (Bool.and_eq_true_iff.mp hboth).2⟩
  · exact ⟨_, List.mem_append_right _ List.mem_cons_self, rfl⟩

/-- A job stays, whatever happens. -/
theorem jobs_step {l : Label (gateway env)} (hs : x.Step y l) :
    ∀ j ∈ World.chatJobs x.world, ∃ j' ∈ World.chatJobs y.world, j'.id = j.id ∧ j'.data = j.data := by
  intro j hj
  rcases hs.world_cases with hw | ⟨i, o, p, op, k, a, -, -, -, he, -⟩ | ⟨m, -, hm⟩
  · exact ⟨j, hw ▸ hj, rfl, rfl⟩
  · exact ⟨j, (jobs_change he).2 j hj, rfl, rfl⟩
  · replace hm : drift m x.world = some y.world := hm
    refine ⟨if j.id = m then { j with kept := false } else j, ?_, ?_⟩
    · rw [← Option.some.inj hm]
      exact List.mem_map_of_mem hj
    · split <;> exact ⟨rfl, rfl⟩

theorem enqueued_step {l : Label (gateway env)} (hs : x.Step y l) {platform : ChatPlatform}
    {id : String} (h : Enqueued x.world platform id) : Enqueued y.world platform id := by
  obtain ⟨j, hj, hp, hid⟩ := h
  obtain ⟨j', hj', -, hdata⟩ := jobs_step hs j hj
  exact ⟨j', hj', by rw [hdata, hp], by rw [hdata, hid]⟩

/-- What a call in progress does next. -/
theorem addsNext_of_reaches (hx : Reachable env x) {p : Process (gateway env)} (hp : p ∈ x.procs)
    {op : Op} {k : Except Err op.Ans → Program ChatWebhookResult}
    (hk : p.prog = some (.call op k)) : AddsNext p.hist op :=
  (hx.along (P := fun _ => True) (J := fun _ => AddsNext)
    (R := fun c r h => Ingested (messages env c) [] r h) (fun _ => trivial)
    (fun _ => ingest_along _) p hp _ hk).1

theorem ids_step (hx : Reachable env x) (hI : Handed x) {l : Label (gateway env)}
    (hs : x.Step y l) : ∀ j ∈ World.chatJobs y.world,
      j.id = chatInboundJobId j.data.platform j.data.providerMessageId := by
  intro j hj
  rcases hs.world_cases with hw | ⟨i, o, p, op, k, a, -, hp, hk, he, -⟩ | ⟨m, -, hm⟩
  · exact hI.ids j (hw ▸ hj)
  · rcases (jobs_change he).1 j hj with hj | ⟨data, rfl, rfl⟩
    · exact hI.ids j hj
    · obtain ⟨d, -, -, -, hid⟩ := addsNext_of_reaches hx (List.mem_of_getElem? hp) hk
      exact hid
  · replace hm : drift m x.world = some y.world := hm
    rw [← Option.some.inj hm] at hj
    obtain ⟨j', hj', rfl⟩ := List.mem_map.mp hj
    split <;> exact hI.ids j' hj'

/-- Who just recorded a message is about to enqueue it. -/
theorem about_to_add (hx : Reachable env x) {p : Process (gateway env)} (hp : p ∈ x.procs)
    (huncut : p.prog ≠ none) {d : ChatInboundEventCreate} (hd : justRecorded p.hist = some d) :
    ∃ jobId data k, p.prog = some (.call (.chatQueueAdd jobId data) k) ∧
      data.platform = d.platform ∧ data.providerMessageId = d.providerMessageId ∧
      jobId = chatInboundJobId data.platform data.providerMessageId := by
  obtain ⟨q, hq⟩ := Option.ne_none_iff_exists'.mp huncut
  have halong := hx.along (P := fun _ => True) (J := fun _ => AddsNext)
    (R := fun c r h => Ingested (messages env c) [] r h) (fun _ => trivial)
    (fun _ => ingest_along _) p hp _ hq
  rcases q with r | ⟨op, k⟩
  · exact absurd (hd.symm.trans halong.1) (Option.some_ne_none _)
  · cases op with
    | chatInboundEventCreate d' => exact absurd (hd.symm.trans halong.1) (Option.some_ne_none _)
    | chatQueueAdd jobId data =>
        obtain ⟨d', hd', hplat, hid, hjob⟩ := halong.1
        cases hd.symm.trans hd'
        exact ⟨jobId, data, k, hq, hplat, hid, hjob⟩

/-- A message handed on before a step is handed on after it. -/
theorem handed_on (hx : Reachable env x) (hI : Handed x) {l : Label (gateway env)}
    (hP : unbroken env x l = true) (hs : x.Step y l) {e : ChatInboundEvent}
    (he : e ∈ World.inboundEvents x.world) : HandedOn y e := by
  rcases hI.handed e he with henq | ⟨p, hp, huncut, d, hd, hplat, hid⟩
  · exact .inl (enqueued_step hs henq)
  · obtain ⟨jobId, data, k, hk, hplat', hid', hjob⟩ := about_to_add hx hp huncut hd
    obtain ⟨i, hi⟩ := List.getElem?_of_mem hp
    have stays : ∀ {j : Nat} {q : Process (gateway env)}, j ≠ i → p ∈ x.procs.set j q :=
      fun hne => List.mem_of_getElem? (by rw [List.getElem?_set_ne hne, hi])
    have kept : p ∈ y.procs → HandedOn y e := fun hp => .inr ⟨p, hp, huncut, d, hd, hplat, hid⟩
    cases hs with
    | arrive hadm hw hprocs => exact kept (by rw [hprocs]; exact List.mem_append_left _ hp)
    | drift hm hprocs => exact kept (hprocs ▸ hp)
    | @crash j q hq hw hprocs =>
        refine kept (hprocs ▸ stays fun hij => ?_)
        subst hij
        simp [unbroken, Config.pending_eq hi hk] at hP
    | @perform j o q op k' a hq hk' hexec hprocs =>
        by_cases hij : j = i
        · subst hij
          cases hq.symm.trans hi
          cases hk'.symm.trans hk
          simp only [unbroken, Config.pending_eq hi hk, Bool.and_eq_true] at hP
          obtain ⟨job, hmem, hjobId⟩ := added hexec hP.1 hP.2
          have hids := ids_step hx hI (.perform hi hk hexec hprocs) job hmem
          obtain ⟨hp', hid''⟩ := chatInboundJobId_inj (hids.symm.trans (hjobId.trans hjob))
          exact .inl ⟨job, hmem, hp'.trans (hplat'.trans hplat), hid''.trans (hid'.trans hid)⟩
        · exact kept (hprocs ▸ stays hij)

theorem handed_step (hx : Reachable env x) (hI : Handed x) {l : Label (gateway env)}
    (hP : unbroken env x l = true) (hs : x.Step y l) : Handed y where
  ids := ids_step hx hI hs
  handed e he := by
    rcases hs.world_cases with hw | ⟨i, o, p, op, k, a, rfl, hp, hk, hexec, hq⟩ | ⟨m, -, hm⟩
    · exact handed_on hx hI hP hs (hw ▸ he)
    · replace hexec : backend.exec op o x.world = some (a, y.world) := hexec
      rcases events_change hexec with hsame | ⟨d, s, rfl, ho, hcreate⟩
      · exact handed_on hx hI hP hs (hsame ▸ he)
      · rcases (Table.mem_create hcreate).mp he with he | rfl
        · exact handed_on hx hI hP hs he
        · refine .inr ⟨_, List.mem_of_getElem? hq, Option.some_ne_none _, d, ?_, rfl, rfl⟩
          cases o with
          | served s' =>
              cases ho
              have heff := Backend.exec_served hexec
              simp only [backend, effect, hcreate] at heff
              obtain rfl : a = .ok () := (Prod.ext_iff.mp heff).1
              rfl
          | lost s' message => simp [unbroken, Config.pending_eq hp hk] at hP
          | failed message => cases ho
    · replace hm : drift m x.world = some y.world := hm
      rw [← Option.some.inj hm] at he
      exact handed_on hx hI hP hs he

/-! ## What was answered -/

/-- A record stays. -/
theorem events_reaches (h : Reaches Guard.free x y) :
    ∀ e ∈ World.inboundEvents x.world, e ∈ World.inboundEvents y.world := by
  induction h with
  | refl => exact fun e he => he
  | tail _ hl ih =>
      intro e he
      replace he := ih e he
      rcases (Config.next_step hl.choose_spec).world_cases with hw |
        ⟨i, o, p, op, k, a, -, -, -, hexec, -⟩ | ⟨m, -, hm⟩
      · exact hw ▸ he
      · rcases events_change hexec with hsame | ⟨d, s, -, -, hcreate⟩
        · exact hsame ▸ he
        · exact (Table.mem_create hcreate).mpr (.inl he)
      · replace hm : drift m _ = some _ := hm
        rw [← Option.some.inj hm]
        exact he

/-- A create that succeeded, or met the unique constraint, leaves a record of the message. -/
theorem create_known {d : ChatInboundEventCreate} {o : Fate Uuid} {a : Except Err Unit}
    (h : backend.exec (.chatInboundEventCreate d) o u = some (a, w))
    (ha : a = .ok () ∨ a = .error .p2002) : ∃ e ∈ w.inboundEvents, e.platform = d.platform ∧
      e.providerMessageId = d.providerMessageId := by
  cases o with
  | served s =>
      have heff := Backend.exec_served h
      simp only [Backend.exec] at h
      split at h
      · rename_i hfits
        simp only [backend, effect] at heff
        split at heff
        · rename_i hnone
          obtain ⟨e, he, hclash⟩ := Table.create_eq_none hnone
          obtain rfl : w = u := (Prod.ext_iff.mp heff).2
          have hne : e.id ≠ s := by simpa using List.all_eq_true.mp hfits e he
          simp only [Constrained.clash, ChatInboundEventCreate.row, Bool.or_eq_true, beq_iff_eq,
            Bool.and_eq_true] at hclash
          exact ⟨e, he, hclash.resolve_left hne⟩
        · rename_i inboundEvents hcreate
          obtain rfl := (Prod.ext_iff.mp heff).2
          exact ⟨_, (Table.mem_create hcreate).mpr (.inr rfl), rfl, rfl⟩
      · cases h
  | lost s message =>
      simp only [Backend.exec] at h
      split at h
      · rcases ha with rfl | rfl <;> cases (Prod.ext_iff.mp (Option.some.inj h)).1
      · cases h
  | failed message =>
      rcases ha with rfl | rfl <;> cases (Prod.ext_iff.mp (Option.some.inj h)).1

/-- What a call knows to be recorded is. -/
theorem recorded_of_known (hx : Reachable env x) {p : Process (gateway env)} (hp : p ∈ x.procs)
    {m : InboundChatMessage} (hm : Known p.hist m) :
    ∃ e ∈ World.inboundEvents x.world, e.platform = m.platform ∧
      e.providerMessageId = m.providerMessageId := by
  obtain ⟨d, a, hmem, hplat, hid, ha⟩ := hm
  obtain ⟨i, hi⟩ := List.getElem?_of_mem hp
  rcases hx.performed hi hmem with ⟨q, hq, -⟩ | ⟨z, o, z', -, -, hrun, hexec⟩
  · simp at hq
  · replace hexec : backend.exec (.chatInboundEventCreate d) o z.world = some (a, z'.world) := hexec
    obtain ⟨e, he, hplat', hid'⟩ := create_known hexec ha
    exact ⟨e, events_reaches hrun e he, hplat'.trans hplat, hid'.trans hid⟩

/-- **No accepted message is lost.** The queue takes a message's job id just if the message's own id
has one colon. In every run in which recorded messages have such ids, a record's answer is not lost,
and the enqueue after it neither fails nor is cut off: when all deliveries are at rest, every recorded
message was enqueued, and so was every message of a batch that was answered. -/
theorem accepted_enqueued (env : Env) :
    (∀ m : InboundChatMessage, acceptsId (chatInboundJobId m.platform m.providerMessageId) = true ↔
      m.providerMessageId.toList.count ':' = 1) ∧
    ∀ x : Config (gateway env), Follows (unbroken env) ⟨World.initial, []⟩ x → x.atRest = true →
      (∀ e ∈ World.inboundEvents x.world, Enqueued x.world e.platform e.providerMessageId) ∧
      ∀ p ∈ x.procs, ∀ result, p.prog = some (.done (.ok result)) → ∀ m ∈ messages env p.call,
        Enqueued x.world m.platform m.providerMessageId := by
  refine ⟨fun m => acceptsId_iff _ _, fun x hx hrest => ?_⟩
  have hhanded := hx.invariant (I := Handed) handed_initial fun hu hI hP hl =>
    handed_step hu hI hP (Config.next_step hl)
  have hall : ∀ e ∈ World.inboundEvents x.world,
      Enqueued x.world e.platform e.providerMessageId := by
    intro e he
    rcases hhanded.handed e he with henq | ⟨p, hp, huncut, d, hd, -⟩
    · exact henq
    · obtain ⟨jobId, data, k, hk, -⟩ := about_to_add hx.reaches hp huncut hd
      exact absurd ⟨_, _, hk⟩ (Config.not_inProgress hrest hp)
  refine ⟨hall, fun p hp result hdone m hm => ?_⟩
  have hknown := (hx.reaches.along (P := fun _ => True) (J := fun _ => AddsNext)
    (R := fun c r h => Ingested (messages env c) [] r h) (fun _ => trivial)
    (fun _ => ingest_along _) p hp _ hdone).2.2 result rfl m hm
  obtain ⟨e, he, hplat, hid⟩ := recorded_of_known hx.reaches hp hknown
  exact hplat ▸ hid ▸ hall e he

namespace Demo

/-- Telegram and WhatsApp, whose deliveries are taken to be signed. -/
def settings : Env where
  adapters := [.telegramAdapter, .metaAdapter .whatsapp .whatsapp]
  signed _ _ _ := true

/-- One WhatsApp text. -/
def whatsApp : IngestInput where
  platform := .whatsapp
  rawBody := ""
  headers := ""
  body := some { entry := [{ changes := [{ messages :=
    [{ sender := some "234", id := some "wamid.1", textBody := some "hi" }] }] }] }

/-- What the adapter reads in it. -/
def text : InboundChatMessage where
  platform := .whatsapp
  providerMessageId := "wamid.1"
  sender := "234"
  text := some "hi"

/-- One Telegram text. -/
def telegram : IngestInput where
  platform := .telegram
  rawBody := ""
  headers := ""
  body := some { update_id := some 9, message := some { chatId := some "5", text := some "hi" } }

def event : Uuid := ⟨"00000000-0000-4000-8000-000000000008", by decide⟩

def event' : Uuid := ⟨"00000000-0000-4000-8000-000000000009", by decide⟩

/-- A delivery as process `i`, whose `n` operations are served, the first with this identifier. -/
def deliver (i n : Nat) (id : Uuid) (input : IngestInput) : List (Label (gateway settings)) :=
  .arrive input :: List.replicate n (.perform i (.served id))

/-- The delivery is this one and was answered. -/
def answered (p : Process (gateway settings)) : Bool :=
  match p.prog with
  | some (.done (.ok _)) => (messages settings p.call).length == 1
  | _ => false

end Demo

set_option maxRecDepth 20000 in
/-- **A WhatsApp message is recorded, its job refused, and its redelivery answered.** -/
theorem accepted_lost :
    (¬ ∀ (env : Env) (x : Config (gateway env)), Reachable env x → x.atRest = true →
      ∀ p ∈ x.procs, ∀ result, p.prog = some (.done (.ok result)) → ∀ m ∈ messages env p.call,
        Enqueued x.world m.platform m.providerMessageId) ∧
    ¬ ∀ (body : Option WebhookBody), ∀ m ∈ (ChatAdapter.metaAdapter .whatsapp .whatsapp).parse body,
      acceptsId (chatInboundJobId m.platform m.providerMessageId) = true := by
  constructor
  · intro hall
    have hrun : ((Config.run Guard.free (Demo.deliver 0 2 Demo.event Demo.whatsApp ++
        Demo.deliver 1 1 Demo.event' Demo.whatsApp) ⟨World.initial, []⟩).map fun x =>
          x.atRest && (World.chatJobs x.world).isEmpty && x.procs.any Demo.answered) =
        some true := by decide
    obtain ⟨x, hx, htest⟩ := exists_of_run hrun
    simp only [Bool.and_eq_true, List.any_eq_true, List.isEmpty_iff] at htest
    obtain ⟨⟨hrest, hnone⟩, p, hp, hanswered⟩ := htest
    unfold Demo.answered at hanswered
    split at hanswered
    · rename_i result hdone
      obtain ⟨m, hm⟩ := List.exists_mem_of_length_pos
        (l := messages Demo.settings p.call) (by rw [eq_of_beq hanswered]; decide)
      obtain ⟨j, hj, -⟩ := hall _ x hx hrest p hp _ hdone m hm
      rw [hnone] at hj
      cases hj
    · cases hanswered
  · intro hall
    exact absurd (hall Demo.whatsApp.body Demo.text (by decide)) (by decide)

set_option maxRecDepth 20000 in
/-- A Telegram message arrives twice. -/
theorem accepted_enqueued_telegram : ∃ x : Config (gateway Demo.settings),
    (Follows (unbroken Demo.settings) ⟨World.initial, []⟩ x ∧ x.atRest = true ∧
      (World.chatJobs x.world).length = 1) ∧
    (∀ e ∈ World.inboundEvents x.world, Enqueued x.world e.platform e.providerMessageId) ∧
    ∀ p ∈ x.procs, ∀ result, p.prog = some (.done (.ok result)) →
      ∀ m ∈ messages Demo.settings p.call, Enqueued x.world m.platform m.providerMessageId := by
  have hrun : ((Config.follow (unbroken Demo.settings)
      (Demo.deliver 0 2 Demo.event Demo.telegram ++ Demo.deliver 1 1 Demo.event' Demo.telegram)
      ⟨World.initial, []⟩).map fun x => x.atRest && (World.chatJobs x.world).length == 1) =
      some true := by decide
  obtain ⟨x, hx, htest⟩ := exists_of_follow hrun
  obtain ⟨hrest, hone⟩ := Bool.and_eq_true_iff.mp htest
  exact ⟨x, ⟨hx, hrest, eq_of_beq hone⟩, (accepted_enqueued Demo.settings).2 x hx hrest⟩

end Meduman.Chat
