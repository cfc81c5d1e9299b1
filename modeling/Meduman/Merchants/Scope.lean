import Meduman.Core.Does
import Meduman.Log.Parity
import Meduman.Model.Merchants
import Meduman.Outbound.Sent

/-!
# What a call may do, and for whom

A request of the API looks its key up before it does anything else, and then acts for the merchant of that
key: it names that merchant in what it writes, or has found the row to be that merchant's.

* `LetIn` : the key a header presents was found, and is usable
* `Scoped` : an operation for one merchant
* `Justified` : what a call may perform after a history
* `Shows` : what a request answers with, of what it has seen
* **`code_justified`** : every call keeps to both
-/

set_option autoImplicit false

namespace Meduman.Merchants

open Effect
open Sellers (CreateTransferRecipientDto)
open Paging (Page)

/-- What a call has done. -/
abbrev Hist := History Op.Ans Err

variable {env : Env} {header : Option String} {h h' : Hist} {merchantId id : Uuid} {ctx : MerchantContext}

/-! ## What was seen -/

/-- The call asked the database of the merchants, and was answered. -/
abbrev Did (h : Hist) (op : MerchantOp) (a : op.Ans) : Prop :=
  (⟨.merchant op, .ok a⟩ : Event Op.Ans Err) ∈ h

abbrev DidCore (h : Hist) (op : Meduman.Op) (a : op.Ans) : Prop :=
  (⟨.core op, .ok a⟩ : Event Op.Ans Err) ∈ h

abbrev DidSellers (h : Hist) (op : Sellers.Op) (a : op.Ans) : Prop :=
  (⟨.sellers op, .ok a⟩ : Event Op.Ans Err) ∈ h

/-- The key the header presents was found: issued, not revoked, of an active merchant. -/
structure KeyFound (env : Env) (header : Option String) (h : Hist) (k : MerchantApiKey) (m : Merchant) :
    Prop where
  found : ∃ key, presented header = some key ∧ Did h (.apiKeyFindUnique (env.hashApiKey key)) (some (k, m))
  unrevoked : k.revokedAt = none
  active : m.status = .active

/-- The request was let in for this merchant. -/
def LetIn (env : Env) (header : Option String) (h : Hist) (ctx : MerchantContext) : Prop :=
  ∃ k m, KeyFound env header h k m ∧ ctx = ⟨m.id, k.livemode⟩ ∧
    (k.livemode = true → m.livemodeEnabled = true)

/-- The transaction was found to be the merchant's. -/
def TransactionRead (h : Hist) (merchantId id : Uuid) : Prop :=
  ∃ t, Did h (.transactionFindFirst id merchantId) (some t)

/-- The account was found to be the merchant's, or was opened for it. -/
def Owned (h : Hist) (merchantId id : Uuid) : Prop :=
  (∃ a, DidSellers h (.userFindOwned merchantId id) (some a)) ∨
    ∃ d a, Did h (.userCreate d) a ∧ d.merchantId = merchantId ∧ a.id = id

/-- The text is a fresh secret, made of random bytes and encrypted. -/
def Secret (env : Env) (h : Hist) (secretEnc secret : String) : Prop :=
  ∃ bytes iv, Did h (.randomBytes 20) bytes ∧ Did h (.randomBytes 12) iv ∧
    secret = webhookSecret bytes ∧ secretEnc = encrypted env.gcm iv secret

theorem KeyFound.suffix {k : MerchantApiKey} {m : Merchant} (hk : KeyFound env header h k m)
    (hs : h <:+ h') : KeyFound env header h' k m := by
  obtain ⟨key, hkey, hfound⟩ := hk.found
  exact ⟨⟨key, hkey, hs.subset hfound⟩, hk.unrevoked, hk.active⟩

theorem LetIn.suffix (hl : LetIn env header h ctx) (hs : h <:+ h') : LetIn env header h' ctx := by
  obtain ⟨k, m, hk, hctx, hlive⟩ := hl
  exact ⟨k, m, hk.suffix hs, hctx, hlive⟩

theorem TransactionRead.suffix (ht : TransactionRead h merchantId id) (hs : h <:+ h') :
    TransactionRead h' merchantId id := by
  obtain ⟨t, ht⟩ := ht
  exact ⟨t, hs.subset ht⟩

theorem Owned.suffix (ho : Owned h merchantId id) (hs : h <:+ h') : Owned h' merchantId id := by
  rcases ho with ⟨a, ha⟩ | ⟨d, a, ha, hd⟩
  · exact .inl ⟨a, hs.subset ha⟩
  · exact .inr ⟨d, a, hs.subset ha, hd⟩

theorem Secret.suffix {secretEnc secret : String} (hsecret : Secret env h secretEnc secret)
    (hs : h <:+ h') : Secret env h' secretEnc secret := by
  obtain ⟨bytes, iv, hbytes, hiv, hrest⟩ := hsecret
  exact ⟨bytes, iv, hs.subset hbytes, hs.subset hiv, hrest⟩

/-! ## What may be done -/

/-- What the core sees of a call. -/
def coreEvent : Event Op.Ans Err → Option (Event Meduman.Op.Ans Meduman.Err)
  | ⟨.core op, a⟩ => some ⟨op, coreEmbedding.back op a⟩
  | _ => none

abbrev coreEvents (h : Hist) : History Meduman.Op.Ans Meduman.Err := h.filterMap coreEvent

/-- What the onboarding sees of a call. -/
def sellersEvent : Event Op.Ans Err → Option (Event Sellers.Op.Ans Sellers.Err)
  | ⟨.sellers op, a⟩ => some ⟨op, sellersEmbedding.back op a⟩
  | _ => none

abbrev sellersEvents (h : Hist) : History Sellers.Op.Ans Sellers.Err := h.filterMap sellersEvent

/-- What the deliveries see of a call. -/
def outboundEvent : Event Op.Ans Err → Option (Event Outbound.Op.Ans Outbound.Err)
  | ⟨.outbound op, a⟩ => some ⟨op, outboundEmbedding.back op a⟩
  | _ => none

abbrev outboundHist (h : Hist) : History Outbound.Op.Ans Outbound.Err := h.filterMap outboundEvent

/-- The publication of a transaction that was loaded. -/
def Publishes (ctx : MerchantContext) (h : Hist) (d : TransitionWrite) : Prop :=
  ∃ tx disputes nextState, d = (publication ctx d.transactionId).write tx nextState ∧
    DidCore h (.transactionFindWithDisputes d.transactionId freezingDisputeStatuses) (some (tx, disputes))

/-- An operation for one merchant. -/
def Scoped (env : Env) (ctx : MerchantContext) (h : Hist) : Op → Prop
  | .core (.transactionCreate d) => d.merchantId = some ctx.id ∧ Owned h ctx.id d.sellerId
  | .core (.commitTransition d) => TransactionRead h ctx.id d.transactionId ∧ Publishes ctx h d
  | .core (.userUpdateRoleFlags id _) => Owned h ctx.id id
  | .core .randomUUID | .core (.userFindUnique _) | .core (.transactionFindWithDisputes ..)
  | .core (.enqueueWebhookDelivery _) => True
  | .core _ => False
  | .sellers (.userFindOwned merchantId _) => merchantId = ctx.id
  | .sellers (.sellerProfileFindUnique id) | .sellers (.sellerProfileCreate id)
  | .sellers (.sellerProfileUpdate id _) => Owned h ctx.id id
  | .sellers (.auditLogCreate d) => ∃ id : Uuid, d.actorId = some id.text ∧ Owned h ctx.id id
  | .sellers _ => True
  | .outbound _ => False
  | .merchant (.randomBytes _) => True
  | .merchant (.userCreate d) => d.merchantId = ctx.id
  | .merchant (.sellerProfileCreate d) => d.merchantId = ctx.id ∧ Owned h ctx.id d.userId
  | .merchant (.sellerProfileFindUnique id) => Owned h ctx.id id
  | .merchant (.sellerProfileFindMany merchantId) | .merchant (.transactionFindFirst _ merchantId)
  | .merchant (.transactionFindMany merchantId ..) | .merchant (.webhookEndpointFindUnique merchantId)
  | .merchant (.webhookEndpointDisable merchantId)
  | .merchant (.outboundEventFindMany merchantId ..) => merchantId = ctx.id
  | .merchant (.webhookEndpointUpsert d) => d.merchantId = ctx.id ∧ d.livemode = ctx.livemode ∧
      env.refusal d.url (!d.livemode) = none ∧ ∃ secret, Secret env h d.secretEnc secret
  | .merchant (.webhookEndpointUpdate merchantId secretEnc) => merchantId = ctx.id ∧
      ∃ secret, Secret env h secretEnc secret
  | .merchant _ => False

/-- What the guard performs: it looks the presented key up, and notes that it was used. -/
def Guarding (env : Env) (header : Option String) (h : Hist) : Op → Prop
  | .merchant (.apiKeyFindUnique keyHash) =>
      ∃ key, presented header = some key ∧ keyHash = env.hashApiKey key
  | .merchant (.apiKeyUpdate id _) => ∃ k m, KeyFound env header h k m ∧ id = k.id
  | .core .now => ∃ k m, KeyFound env header h k m
  | _ => False

/-- The administrator's call issues a key to the merchant. -/
def Call.Grants (h : Hist) (merchantId : Uuid) (livemode : Bool) : Call → Prop
  | .issueKey id mode => id = merchantId ∧ mode.getD false = livemode
  | .createMerchant name => livemode = false ∧
      ∃ m, Did h (.merchantCreate name) m ∧ m.id = merchantId
  | _ => False

/-- The key is made of random bytes, for the merchant and the mode of the call. -/
def Issues (env : Env) (c : Call) (h : Hist) (d : MerchantApiKeyCreate) : Prop :=
  c.Grants h d.merchantId d.livemode ∧ ∃ bytes, Did h (.randomBytes 20) bytes ∧
    d.keyHash = env.hashApiKey (keyTag d.livemode ++ hexText bytes)

/-- What an administrator performs. -/
def Administers (env : Env) (c : Call) (h : Hist) : Op → Prop
  | .merchant (.apiKeyCreate d) => Issues env c h d
  | .merchant (.apiKeyRevoke id merchantId _) => c = .revokeKey merchantId id
  | .merchant (.merchantUpdate id _) => ∃ dto, c = .update id dto
  | .merchant (.merchantCreate name) => c = .createMerchant name
  | .merchant (.randomBytes _) | .core .now => True
  | _ => False

/-- The transaction belongs to no merchant. -/
def Unowned (op : Meduman.Op) : Prop := ∀ d, op = .transactionCreate d → d.merchantId = none

/-- What a call may perform. -/
def Justified (env : Env) (c : Call) (h : Hist) (op : Op) : Prop :=
  match c with
  | .request header _ => Guarding env header h op ∨ ∃ ctx, LetIn env header h ctx ∧ Scoped env ctx h op
  | .core _ => ∃ op', op = .core op' ∧ Unowned op' ∧ Logged (coreEvents h) op'
  | .onboard _ => ∃ op', op = .sellers op'
  | .outbound _ => ∃ op', op = .outbound op' ∧ Outbound.Sound env.outbound (outboundHist h) op'
  | c => Administers env c h op

/-! ## What is answered -/

/-- The transaction was seen as the merchant's. -/
inductive TransactionSeen (h : Hist) (merchantId : Uuid) (tx : Transaction) : Prop
  | found (id : Uuid) (did : Did h (.transactionFindFirst id merchantId) (some tx))
  | listed (status : Option TransactionStatus) (take : Nat) (cursor : Option Uuid)
      (rows : List Transaction) (did : Did h (.transactionFindMany merchantId status take cursor) rows)
      (mem : tx ∈ rows)
  | created (d : TransactionCreate) (did : DidCore h (.transactionCreate d) tx)
      (own : d.merchantId = some merchantId)
  | published (d : TransitionWrite) (eventId : Option Uuid)
      (did : DidCore h (.commitTransition d) (tx, eventId))
      (own : TransactionRead h merchantId d.transactionId)

/-- A page leads on from one of its items. -/
def Within {σ : Type} (id : σ → Uuid) (page : Page σ Uuid) : Prop :=
  ∀ c, page.nextCursor = some c → ∃ v ∈ page.items, id v = c

/-- What a request answers with. -/
def Shows (env : Env) (merchantId : Uuid) (h : Hist) : Reply → Prop
  | .transaction v => ∃ tx, TransactionSeen h merchantId tx ∧ v = view env tx
  | .transactions page => Within TransactionView.id page ∧
      ∀ v ∈ page.items, ∃ tx, TransactionSeen h merchantId tx ∧ v = view env tx
  | .sellerCreated id name => Owned h merchantId id ∧ ∃ d p, Did h (.sellerProfileCreate d) p ∧
      d.userId = id ∧ d.merchantId = merchantId ∧ name = p.2
  | .sellers views => ∃ rows, Did h (.sellerProfileFindMany merchantId) rows ∧ views = rows.map sellerView
  | .seller v => Owned h merchantId v.id ∧ ∃ profile, Did h (.sellerProfileFindUnique v.id) profile ∧
      v = ⟨v.id, profile.bind Prod.snd, profile.any fun p => settlementReady p.1⟩
  | .recipient v => ∃ id d p, Owned h merchantId id ∧ DidSellers h (.sellerProfileUpdate id d) p ∧
      v = ⟨settlementReady p, p.settlementBankCode, p.settlementAccountName, p.settlementAccountLast4⟩
  | .endpointSet id url secret => ∃ d row, Did h (.webhookEndpointUpsert d) row ∧
      d.merchantId = merchantId ∧ id = row.id ∧ url = row.url ∧ Secret env h d.secretEnc secret
  | .endpoint v => ∃ row, Did h (.webhookEndpointFindUnique merchantId) row ∧
      v = row.map WebhookEndpoint.view
  | .rotated secret => ∃ secretEnc, Did h (.webhookEndpointUpdate merchantId secretEnc) () ∧
      Secret env h secretEnc secret
  | .disabled => Did h (.webhookEndpointDisable merchantId) ()
  | .events page => Within EventView.id page ∧ ∀ v ∈ page.items, ∃ e status take cursor rows,
      Did h (.outboundEventFindMany merchantId status take cursor) rows ∧ e ∈ rows ∧ v = eventView e
  | _ => False

/-- What a call leaves when it is answered. -/
def Call.Answered (env : Env) (c : Call) (reply : Reply) (h : Hist) : Prop :=
  ∀ header route, c = .request header route →
    ∃ ctx, LetIn env header h ctx ∧ Shows env ctx.id h reply

/-! ## Programs -/

section Programs

variable {α β : Type} {c : Call} {R : α → Hist → Prop} {route : Route}

/-- An answer some world gives. -/
def Possible (e : Event Op.Ans Err) : Prop := ∃ choice u w, exec e.op choice u = some (e.ans, w)

/-- The program keeps to what is justified, and what it gives satisfies `R`. -/
abbrev Keeps (env : Env) (c : Call) (R : α → Hist → Prop) (p : Program α) (h : Hist) : Prop :=
  p.Gives Possible (Justified env c) R h

theorem keeps_await {op : MerchantOp} {R : op.Ans → Hist → Prop} (hjust : Justified env c h (.merchant op))
    (hR : ∀ a, R a (⟨.merchant op, .ok a⟩ :: h)) : Keeps env c R (await op) h :=
  gives_perform _ hjust fun a _ => hR a

/-- One operation of the core. -/
theorem core_await {op : Meduman.Op} {R : op.Ans → Hist → Prop} (hjust : Justified env c h (.core op))
    (hR : ∀ a, R a (⟨.core op, .ok a⟩ :: h)) : Keeps env c R (core (Meduman.await op)) h := by
  refine ⟨hjust, fun a _ => ?_⟩
  cases a with
  | error e => exact fun _ ha => by cases ha
  | ok a =>
      rintro _ ⟨⟩
      exact hR a

/-- What the core loaded, the call was answered. -/
theorem didCore_of_mem {op : Meduman.Op} {a : op.Ans}
    (hmem : (⟨op, .ok a⟩ : Event Meduman.Op.Ans Meduman.Err) ∈ coreEvents h) : DidCore h op a := by
  obtain ⟨⟨op', a'⟩, he, heq⟩ := List.mem_filterMap.mp hmem
  cases op' with
  | core op' =>
      cases a' with
      | error e => cases heq
      | ok a' => cases heq; exact he
  | _ => cases heq

/-- What the core may answer a call, it answers. -/
theorem Possible.core {op : Meduman.Op} {a : Except Err op.Ans}
    (h : Possible ⟨.core op, a⟩) : Meduman.Possible ⟨op, coreEmbedding.back op a⟩ := by
  obtain ⟨choice, u, w, hexec⟩ := h
  cases choice with
  | core o =>
      obtain ⟨⟨a₀, w'⟩, hcore, heq⟩ := Option.map_eq_some_iff.mp hexec
      cases heq
      cases a₀ <;> exact possible_of_exec hcore
  | _ => cases hexec

/-- A program of the core, by what it promises of its own history. -/
theorem core_keeps {p : Meduman.Program α} {J : History Meduman.Op.Ans Meduman.Err → Meduman.Op → Prop}
    {R : α → History Meduman.Op.Ans Meduman.Err → Prop}
    (hp : p.Gives (fun _ => True) J R (coreEvents h))
    (hJ : ∀ h' op, h <:+ h' → J (coreEvents h') op → Justified env c h' (.core op)) :
    Keeps env c (fun a h' => R a (coreEvents h')) (core p) h :=
  gives_embed coreEvents (fun _ _ _ => rfl) (fun _ _ _ => trivial) hJ hp

/-- A program of the onboarding. -/
theorem sellers_keeps {p : Sellers.Program α} {J : History Sellers.Op.Ans Sellers.Err → Sellers.Op → Prop}
    {R : α → History Sellers.Op.Ans Sellers.Err → Prop}
    (hp : p.Gives (fun _ => True) J R (sellersEvents h))
    (hJ : ∀ h' op, h <:+ h' → J (sellersEvents h') op → Justified env c h' (.sellers op)) :
    Keeps env c (fun a h' => R a (sellersEvents h')) (sellers p) h :=
  gives_embed sellersEvents (fun _ _ _ => rfl) (fun _ _ _ => trivial) hJ hp

theorem didSellers_of_mem {op : Sellers.Op} {a : op.Ans}
    (hmem : (⟨op, .ok a⟩ : Event Sellers.Op.Ans Sellers.Err) ∈ sellersEvents h) : DidSellers h op a := by
  obtain ⟨⟨op', a'⟩, he, heq⟩ := List.mem_filterMap.mp hmem
  cases op' with
  | sellers op' =>
      cases a' with
      | error e => cases heq
      | ok a' => cases heq; exact he
  | _ => cases heq

/-! ### The guard -/

theorem verifyKey_keeps {key : String} (hkey : presented header = some key) :
    Keeps env (.request header route) (fun found h' => ∀ m livemode, found = some (m, livemode) →
      ∃ k, KeyFound env header h' k m ∧ k.livemode = livemode) (verifyKey env key) h := by
  refine gives_bind (R := fun a h' => Did h' (.apiKeyFindUnique (env.hashApiKey key)) a)
    (keeps_await (.inl ⟨key, hkey, rfl⟩) fun _ => List.mem_cons_self) fun found h₁ _ hfound => ?_
  rcases found with _ | ⟨row, merchant⟩
  · exact gives_pure fun _ _ hno => by cases hno
  · dsimp only
    split
    · exact gives_pure fun _ _ hno => by cases hno
    · rename_i husable
      have hrow : row.revokedAt = none ∧ merchant.status = .active := by
        simpa [not_or] using husable
      have hkeyFound : KeyFound env header h₁ row merchant := ⟨⟨key, hkey, hfound⟩, hrow.1, hrow.2⟩
      refine gives_bind (R := fun _ _ => True) (core_await (.inl ⟨row, merchant, hkeyFound⟩) fun _ => trivial)
        fun now h₂ hs₂ _ => ?_
      refine gives_bind (R := fun _ _ => True)
        (keeps_await (.inl ⟨row, merchant, hkeyFound.suffix hs₂, rfl⟩) fun _ => trivial) fun _ h₃ hs₃ _ => ?_
      refine gives_pure fun m livemode hsome => ?_
      cases hsome
      exact ⟨row, hkeyFound.suffix (hs₂.trans hs₃), rfl⟩

/-- **Who passes the guard was let in.** -/
theorem canActivate_keeps : Keeps env (.request header route) (fun ctx h' => LetIn env header h' ctx)
    (canActivate env header) h := by
  unfold canActivate
  split
  · exact gives_throw _
  · rename_i key hkey
    refine gives_bind (verifyKey_keeps hkey) fun found h₁ _ hfound => ?_
    rcases found with _ | ⟨merchant, livemode⟩
    · exact gives_throw _
    · dsimp only
      split
      · exact gives_throw _
      · rename_i hlive
        obtain ⟨k, hk, rfl⟩ := hfound merchant livemode rfl
        exact gives_pure ⟨k, merchant, hk, rfl, by simpa using hlive⟩

/-! ### The handlers -/

/-- What a request that was let in does for its merchant. -/
theorem LetIn.justified (hin : LetIn env header h ctx) {op : Op} (hop : Scoped env ctx h op) :
    Justified env (.request header route) h op := .inr ⟨ctx, hin, hop⟩

theorem assertOwnedSeller_keeps (hin : LetIn env header h ctx) : Keeps env (.request header route)
    (fun _ h' => Owned h' ctx.id id) (sellers (Sellers.assertOwnedSeller ctx.id id)) h := by
  have hown : (Sellers.assertOwnedSeller ctx.id id).Gives (fun _ => True)
      (fun _ op => op = .userFindOwned ctx.id id)
      (fun _ hs => ∃ a, (⟨.userFindOwned ctx.id id, .ok (some a)⟩ : Event Sellers.Op.Ans Sellers.Err) ∈ hs)
      (sellersEvents h) := by
    refine gives_bind (R := fun a hs => (⟨.userFindOwned ctx.id id, .ok a⟩ :
        Event Sellers.Op.Ans Sellers.Err) ∈ hs)
      (gives_perform _ rfl fun a _ => List.mem_cons_self) fun found _ _ hfound => ?_
    cases found with
    | none => exact gives_throw _
    | some a => exact gives_pure ⟨a, hfound⟩
  refine (sellers_keeps hown fun h' op hs hop => ?_).weaken fun _ h' _ hfound => ?_
  · subst hop
    exact (hin.suffix hs).justified rfl
  · obtain ⟨a, hmem⟩ := hfound
    exact .inl ⟨a, didSellers_of_mem hmem⟩

/-- What creating a draft performs. -/
def Drafts (input : CreateDraftInput) : Meduman.Op → Prop
  | .transactionCreate d => d.merchantId = input.merchantId ∧ d.sellerId = input.sellerId
  | .userUpdateRoleFlags id _ => id = input.sellerId
  | .randomUUID | .userFindUnique _ => True
  | _ => False

theorem createDraft_gives (input : CreateDraftInput) {hc : History Meduman.Op.Ans Meduman.Err} :
    (createDraft input).Gives (fun _ => True) (fun _ op => Drafts input op)
      (fun tx hc' => ∃ d, (⟨.transactionCreate d, .ok tx⟩ : Event Meduman.Op.Ans Meduman.Err) ∈ hc' ∧
        d.merchantId = input.merchantId) hc := by
  refine gives_bind (R := fun _ _ => True) (gives_perform _ trivial fun _ _ => trivial) fun uuid h₁ _ _ => ?_
  refine gives_bind (R := fun tx hc' => (⟨.transactionCreate (input.create uuid.hex), .ok tx⟩ :
      Event Meduman.Op.Ans Meduman.Err) ∈ hc')
    (gives_perform _ ⟨rfl, rfl⟩ fun tx _ => List.mem_cons_self) fun tx h₂ _ htx => ?_
  refine gives_bind (R := fun _ _ => True) ?_ fun _ h₃ hs₃ _ => gives_pure ⟨_, hs₃.subset htx, rfl⟩
  have huses : (grantRoleFlag input.sellerId .seller).Uses (Drafts input) :=
    grantRoleFlag_uses trivial fun _ => rfl
  exact huses.along (fun _ _ hop => hop) fun _ _ _ _ _ => trivial

/-- The draft of a merchant is the merchant's. -/
theorem draft_v1 {dto : CreateV1TransactionDto} {input : CreateDraftInput}
    (hdraft : (Entrypoint.v1 merchantId dto).draft = some input) :
    input.merchantId = some merchantId ∧ input.sellerId = dto.sellerId := by
  simp only [Entrypoint.draft] at hdraft
  split at hdraft
  · cases hdraft
    exact ⟨rfl, rfl⟩
  · cases hdraft

theorem createTransaction_keeps (hin : LetIn env header h ctx) (dto : CreateV1TransactionDto) :
    Keeps env (.request header route) (fun reply h' => Shows env ctx.id h' reply)
      (createTransaction env ctx dto) h := by
  unfold createTransaction
  split
  · exact gives_throw _
  · rename_i input hdraft
    obtain ⟨hmerchant, hseller⟩ := draft_v1 hdraft
    refine gives_bind (assertOwnedSeller_keeps hin) fun _ h₁ hs₁ hown => ?_
    refine gives_bind (core_keeps (createDraft_gives input) fun h' op hs hop => ?_) fun tx h₂ _ htx => ?_
    · refine ((hin.suffix hs₁).suffix hs).justified ?_
      have hown' : Owned h' ctx.id input.sellerId := hseller ▸ hown.suffix hs
      cases op with
      | transactionCreate d => exact ⟨hop.1.trans hmerchant, hop.2 ▸ hown'⟩
      | userUpdateRoleFlags id flags =>
          obtain rfl : id = input.sellerId := hop
          exact hown'
      | randomUUID => trivial
      | userFindUnique id => trivial
      | _ => exact hop.elim
    · obtain ⟨d, hmem, hd⟩ := htx
      exact gives_pure ⟨tx, .created d (didCore_of_mem hmem) (hd.trans hmerchant), rfl⟩

theorem getByIdForMerchant_keeps (hin : LetIn env header h ctx) :
    Keeps env (.request header route) (fun tx h' => Did h' (.transactionFindFirst id ctx.id) (some tx))
      (getByIdForMerchant ctx.id id) h := by
  refine gives_bind (R := fun a h' => Did h' (.transactionFindFirst id ctx.id) a)
    (keeps_await (hin.justified rfl) fun _ => List.mem_cons_self) fun found h₁ _ hfound => ?_
  cases found with
  | none => exact gives_throw _
  | some tx => exact gives_pure hfound

theorem getTransaction_keeps (hin : LetIn env header h ctx) (id : Uuid) :
    Keeps env (.request header route) (fun reply h' => Shows env ctx.id h' reply)
      (getTransaction env ctx id) h :=
  gives_bind (getByIdForMerchant_keeps hin) fun tx _ _ htx => gives_pure ⟨tx, .found id htx, rfl⟩

/-- What applying an event performs. -/
def Commits (input : ApplyTransitionInput) (hc : History Meduman.Op.Ans Meduman.Err) : Meduman.Op → Prop
  | .transactionFindWithDisputes .. | .enqueueWebhookDelivery _ => True
  | .commitTransition d => ∃ tx disputes nextState, d = input.write tx nextState ∧
      input.load tx disputes ∈ hc
  | _ => False

/-- What it gives. -/
theorem apply_gives (input : ApplyTransitionInput) {hc : History Meduman.Op.Ans Meduman.Err} :
    (apply input).Gives (fun _ => True) (Commits input)
      (fun tx hc' => ∃ d eventId, (⟨.commitTransition d, .ok (tx, eventId)⟩ :
        Event Meduman.Op.Ans Meduman.Err) ∈ hc' ∧ d.transactionId = input.transactionId) hc := by
  refine apply_traces trivial (fun tx disputes nextState _ => ?_) (fun _ _ => trivial) ?_ ?_
  · exact ⟨tx, disputes, nextState, rfl, List.mem_cons_self⟩
  · exact fun e l _ a ha => by cases ha
  · rintro tx disputes nextState ⟨updatedTx, eventId⟩ l - - - a ha
    cases ha
    exact ⟨input.write tx nextState, eventId, List.mem_append_right _ List.mem_cons_self, rfl⟩

theorem publish_keeps (hin : LetIn env header h ctx) (id : Uuid) :
    Keeps env (.request header route) (fun reply h' => Shows env ctx.id h' reply)
      (publish env ctx id) h := by
  refine gives_bind (getByIdForMerchant_keeps hin) fun tx h₁ hs₁ htx => ?_
  refine gives_bind (core_keeps (apply_gives (publication ctx id)) fun h' op hs hop => ?_)
    fun tx' h₂ hs₂ htx' => ?_
  · refine ((hin.suffix hs₁).suffix hs).justified ?_
    cases op with
    | transactionFindWithDisputes id statuses => trivial
    | enqueueWebhookDelivery eventId => trivial
    | commitTransition d =>
        obtain ⟨tx₀, disputes, nextState, rfl, hload⟩ := hop
        exact ⟨⟨tx, hs.subset htx⟩, tx₀, disputes, nextState, rfl, didCore_of_mem hload⟩
    | _ => exact hop.elim
  · obtain ⟨d, eventId, hmem, hid⟩ := htx'
    have hread : TransactionRead h₂ ctx.id d.transactionId := hid ▸ ⟨tx, hs₂.subset htx⟩
    exact gives_pure ⟨tx', .published d eventId (didCore_of_mem hmem) hread, rfl⟩

theorem toPage_within {ρ σ : Type} {id : ρ → Uuid} {id' : σ → Uuid} {f : ρ → σ}
    (hid : ∀ r, id' (f r) = id r) (take : Nat) (rows : List ρ) : Within id' (toPage id f take rows) := by
  intro c hc
  simp only [toPage] at hc
  split at hc
  · obtain ⟨r, hr, rfl⟩ := Option.map_eq_some_iff.mp hc
    exact ⟨f r, List.mem_map_of_mem (List.mem_of_getLast? hr), hid r⟩
  · cases hc

theorem listTransactions_keeps (hin : LetIn env header h ctx) (q : ListV1TransactionsDto) :
    Keeps env (.request header route) (fun reply h' => Shows env ctx.id h' reply)
      (listTransactions env ctx q) h := by
  refine gives_bind (R := fun rows h' => Did h'
      (.transactionFindMany ctx.id q.status (q.limit.getD 20 + 1) q.cursor) rows)
    (keeps_await (hin.justified rfl) fun _ => List.mem_cons_self) fun rows h₁ _ hrows => ?_
  refine gives_pure ⟨toPage_within (fun _ => rfl) _ _, fun v hv => ?_⟩
  obtain ⟨tx, htx, rfl⟩ := List.mem_map.mp hv
  exact ⟨tx, .listed _ _ _ rows hrows (List.mem_of_mem_take htx), rfl⟩

theorem listEvents_keeps (hin : LetIn env header h ctx) (q : ListEventsDto) :
    Keeps env (.request header route) (fun reply h' => Shows env ctx.id h' reply)
      (listEvents ctx.id q) h := by
  refine gives_bind (R := fun rows h' => Did h'
      (.outboundEventFindMany ctx.id q.status (q.limit.getD 20 + 1) q.cursor) rows)
    (keeps_await (hin.justified rfl) fun _ => List.mem_cons_self) fun rows h₁ _ hrows => ?_
  refine gives_pure ⟨toPage_within (fun _ => rfl) _ _, fun v hv => ?_⟩
  obtain ⟨e, he, rfl⟩ := List.mem_map.mp hv
  exact ⟨e, _, _, _, rows, hrows, List.mem_of_mem_take he, rfl⟩

theorem randomUUID_keeps (hin : LetIn env header h ctx) :
    Keeps env (.request header route) (fun _ _ => True) (core (Meduman.await .randomUUID)) h :=
  core_await (hin.justified trivial) fun _ => trivial

theorem createSeller_keeps (hin : LetIn env header h ctx) (dto : CreateSellerDto) :
    Keeps env (.request header route) (fun reply h' => Shows env ctx.id h' reply)
      (createSeller ctx.id dto) h := by
  refine gives_bind (R := fun _ _ => True) ?_ fun email h₁ hs₁ _ => ?_
  · unfold emailOf
    split
    · exact gives_pure trivial
    · exact gives_map (randomUUID_keeps hin)
  refine gives_bind (randomUUID_keeps (hin.suffix hs₁)) fun id h₂ hs₂ _ => ?_
  have hin₂ := (hin.suffix hs₁).suffix hs₂
  refine gives_bind (R := fun user h' => Owned h' ctx.id user.id)
    (keeps_await (hin₂.justified rfl) fun user => .inr ⟨_, user, List.mem_cons_self, rfl, rfl⟩)
    fun user h₃ hs₃ hown => ?_
  refine gives_bind (R := fun p h' => Did h' (.sellerProfileCreate
      { userId := user.id, businessName := dto.businessName, merchantId := ctx.id }) p)
    (keeps_await ((hin₂.suffix hs₃).justified ⟨rfl, hown⟩) fun _ => List.mem_cons_self)
    fun profile h₄ hs₄ hprofile => ?_
  exact gives_pure ⟨hown.suffix hs₄, _, profile, hprofile, rfl, rfl, rfl⟩

theorem listSellers_keeps (hin : LetIn env header h ctx) :
    Keeps env (.request header route) (fun reply h' => Shows env ctx.id h' reply)
      (listSellers ctx.id) h :=
  gives_bind (R := fun rows h' => Did h' (.sellerProfileFindMany ctx.id) rows)
    (keeps_await (hin.justified rfl) fun _ => List.mem_cons_self) fun rows _ _ hrows =>
      gives_pure ⟨rows, hrows, rfl⟩

theorem getSeller_keeps (hin : LetIn env header h ctx) (id : Uuid) :
    Keeps env (.request header route) (fun reply h' => Shows env ctx.id h' reply)
      (getSeller ctx.id id) h := by
  refine gives_bind (assertOwnedSeller_keeps hin) fun _ h₁ hs₁ hown => ?_
  refine gives_bind (R := fun profile h' => Did h' (.sellerProfileFindUnique id) profile)
    (keeps_await ((hin.suffix hs₁).justified hown) fun _ => List.mem_cons_self)
    fun profile h₂ hs₂ hprofile => ?_
  exact gives_pure ⟨hown.suffix hs₂, profile, hprofile, rfl⟩

/-- What onboarding a seller performs. -/
def Onboards (id : Uuid) : Sellers.Op → Prop
  | .userFindOwned .. => False
  | .sellerProfileFindUnique id' | .sellerProfileCreate id' | .sellerProfileUpdate id' _ => id' = id
  | .auditLogCreate d => d.actorId = some id.text
  | _ => True

/-- What it gives. -/
theorem createTransferRecipient_gives (id : Uuid) (dto : CreateTransferRecipientDto)
    {hs : History Sellers.Op.Ans Sellers.Err} : (Sellers.createTransferRecipient id dto).Gives
      (fun _ => True) (fun _ op => Onboards id op)
      (fun p hs' => ∃ d, (⟨.sellerProfileUpdate id d, .ok p⟩ : Event Sellers.Op.Ans Sellers.Err) ∈ hs') hs := by
  refine gives_bind (R := fun _ _ => True) ?_ fun profile h₁ _ _ => ?_
  · refine gives_bind (R := fun _ _ => True) (gives_perform _ rfl fun _ _ => trivial) fun found h₂ _ _ => ?_
    cases found with
    | some existing => exact gives_pure trivial
    | none => exact gives_perform (Sellers.Op.sellerProfileCreate id) rfl fun _ _ => trivial
  · split
    · exact gives_throw _
    · refine gives_bind (R := fun _ _ => True) (gives_perform _ trivial fun _ _ => trivial)
        fun accountName h₂ _ _ => ?_
      refine gives_bind (R := fun _ _ => True) (gives_perform _ trivial fun _ _ => trivial)
        fun recipientCode h₃ _ _ => ?_
      refine gives_bind (R := fun p hs' => ∃ d, (⟨.sellerProfileUpdate id d, .ok p⟩ :
          Event Sellers.Op.Ans Sellers.Err) ∈ hs')
        (gives_perform (Sellers.Op.sellerProfileUpdate id _) rfl fun p _ => ⟨_, List.mem_cons_self⟩)
        fun updated h₄ _ hupdated => ?_
      refine gives_bind (R := fun _ _ => True)
        (gives_perform (Sellers.Op.auditLogCreate _) rfl fun _ _ => trivial) fun _ h₅ hs₅ _ => ?_
      obtain ⟨d, hmem⟩ := hupdated
      exact gives_pure ⟨d, hs₅.subset hmem⟩

theorem recipient_keeps (hin : LetIn env header h ctx) (id : Uuid) (dto : CreateTransferRecipientDto) :
    Keeps env (.request header route) (fun reply h' => Shows env ctx.id h' reply)
      (recipient ctx id dto) h := by
  refine gives_bind (assertOwnedSeller_keeps hin) fun _ h₁ hs₁ hown => ?_
  refine gives_bind (sellers_keeps (createTransferRecipient_gives id dto) fun h' op hs hop => ?_)
    fun p h₂ hs₂ hp => ?_
  · refine ((hin.suffix hs₁).suffix hs).justified ?_
    cases op with
    | userFindOwned merchantId sellerId => exact hop.elim
    | sellerProfileFindUnique id' => obtain rfl : id' = id := hop; exact hown.suffix hs
    | sellerProfileCreate id' => obtain rfl : id' = id := hop; exact hown.suffix hs
    | sellerProfileUpdate id' d => obtain rfl : id' = id := hop; exact hown.suffix hs
    | auditLogCreate d => exact ⟨id, hop, hown.suffix hs⟩
    | _ => trivial
  · obtain ⟨d, hmem⟩ := hp
    exact gives_pure ⟨id, d, p, hown.suffix hs₂, didSellers_of_mem hmem, rfl⟩

/-- A fresh secret, encrypted. -/
theorem secret_keeps {f : String → String → Program β} {S : β → Hist → Prop}
    (hin : LetIn env header h ctx)
    (hf : ∀ secret secretEnc h', h <:+ h' → Secret env h' secretEnc secret →
      Keeps env (.request header route) S (f secret secretEnc) h') :
    Keeps env (.request header route) S (do
      let secret ← generateWebhookSecret
      let secretEnc ← encryptSecret env.gcm secret
      f secret secretEnc) h := by
  refine gives_bind (R := fun secret h' => ∃ bytes, Did h' (.randomBytes 20) bytes ∧
    secret = webhookSecret bytes) ?_ fun secret h₁ hs₁ hsecret => ?_
  · exact gives_bind (R := fun bytes h' => Did h' (.randomBytes 20) bytes)
      (keeps_await (hin.justified trivial) fun bytes => List.mem_cons_self) fun bytes _ _ hbytes =>
        gives_pure ⟨bytes, hbytes, rfl⟩
  refine gives_bind (R := fun secretEnc h' => Secret env h' secretEnc secret) ?_
    fun secretEnc h₂ hs₂ hsealed => hf secret secretEnc h₂ (hs₁.trans hs₂) hsealed
  refine gives_bind (R := fun iv h' => Did h' (.randomBytes 12) iv)
    (keeps_await ((hin.suffix hs₁).justified trivial) fun iv => List.mem_cons_self) fun iv h₂ hs₂ hiv => ?_
  obtain ⟨bytes, hbytes, hmade⟩ := hsecret
  exact gives_pure ⟨bytes, iv, hs₂.subset hbytes, hiv, hmade, rfl⟩

theorem setEndpoint_keeps (hin : LetIn env header h ctx) (url : String) :
    Keeps env (.request header route) (fun reply h' => Shows env ctx.id h' reply)
      (setEndpoint env ctx.id ctx.livemode url) h := by
  unfold setEndpoint
  split
  · exact gives_throw _
  · rename_i hpublic
    refine secret_keeps hin fun secret secretEnc h₁ hs₁ hsecret => ?_
    have hscoped : Scoped env ctx h₁ (.merchant (.webhookEndpointUpsert
        { merchantId := ctx.id, url := url, secretEnc := secretEnc, livemode := ctx.livemode })) :=
      ⟨rfl, rfl, hpublic, secret, hsecret⟩
    refine gives_bind (R := fun row h' => Did h' (.webhookEndpointUpsert
        { merchantId := ctx.id, url := url, secretEnc := secretEnc, livemode := ctx.livemode }) row)
      (keeps_await ((hin.suffix hs₁).justified hscoped) fun _ => List.mem_cons_self)
      fun row h₂ hs₂ hrow => ?_
    exact gives_pure ⟨_, row, hrow, rfl, rfl, rfl, hsecret.suffix hs₂⟩

theorem getEndpoint_keeps (hin : LetIn env header h ctx) :
    Keeps env (.request header route) (fun reply h' => Shows env ctx.id h' reply)
      (getEndpoint ctx.id) h :=
  gives_bind (R := fun row h' => Did h' (.webhookEndpointFindUnique ctx.id) row)
    (keeps_await (hin.justified rfl) fun _ => List.mem_cons_self) fun row _ _ hrow =>
      gives_pure ⟨row, hrow, rfl⟩

theorem rotateSecret_keeps (hin : LetIn env header h ctx) :
    Keeps env (.request header route) (fun reply h' => Shows env ctx.id h' reply)
      (rotateSecret env ctx.id) h := by
  refine gives_bind (R := fun _ _ => True) (keeps_await (hin.justified rfl) fun _ => trivial)
    fun found h₁ hs₁ _ => ?_
  cases found with
  | none => exact gives_throw _
  | some row =>
      refine secret_keeps (hin.suffix hs₁) fun secret secretEnc h₂ hs₂ hsecret => ?_
      refine gives_bind (R := fun a h' => Did h' (.webhookEndpointUpdate ctx.id secretEnc) a)
        (keeps_await (((hin.suffix hs₁).suffix hs₂).justified ⟨rfl, secret, hsecret⟩)
          fun _ => List.mem_cons_self) fun _ h₃ hs₃ hdone => ?_
      exact gives_pure ⟨secretEnc, hdone, hsecret.suffix hs₃⟩

theorem disable_keeps (hin : LetIn env header h ctx) :
    Keeps env (.request header route) (fun reply h' => Shows env ctx.id h' reply)
      (disable ctx.id) h :=
  gives_bind (R := fun a h' => Did h' (.webhookEndpointDisable ctx.id) a)
    (keeps_await (hin.justified rfl) fun _ => List.mem_cons_self) fun _ _ _ hdone => gives_pure hdone

/-- **A handler does what it does for the merchant of the key.** -/
theorem handle_keeps {route' : Route} (hin : LetIn env header h ctx) :
    Keeps env (.request header route') (fun reply h' => Shows env ctx.id h' reply)
      (handle env ctx route) h := by
  cases route with
  | createTransaction dto => exact createTransaction_keeps hin dto
  | listTransactions q => exact listTransactions_keeps hin q
  | getTransaction id => exact getTransaction_keeps hin id
  | publish id => exact publish_keeps hin id
  | createSeller dto => exact createSeller_keeps hin dto
  | listSellers => exact listSellers_keeps hin
  | getSeller id => exact getSeller_keeps hin id
  | recipient id dto => exact recipient_keeps hin id dto
  | setEndpoint url => exact setEndpoint_keeps hin url
  | getEndpoint => exact getEndpoint_keeps hin
  | rotateSecret => exact rotateSecret_keeps hin
  | disable => exact disable_keeps hin
  | listEvents q => exact listEvents_keeps hin q

theorem request_keeps : Keeps env (.request header route)
    (fun reply h' => ∃ ctx, LetIn env header h' ctx ∧ Shows env ctx.id h' reply)
    (request env header route) h := by
  refine gives_bind canActivate_keeps fun ctx h₁ _ hin => ?_
  split
  · exact gives_throw _
  · exact (handle_keeps hin).extends.mono fun r h₂ hr reply hreply =>
      ⟨ctx, hin.suffix hr.2, hr.1 reply hreply⟩

/-! ### Administrators -/

theorem issueKey_keeps {livemode : Bool}
    (hadmin : ∀ h' op, Administers env c h' op → Justified env c h' op)
    (hgrants : c.Grants h merchantId livemode)
    (hlater : ∀ h', h <:+ h' → c.Grants h merchantId livemode → c.Grants h' merchantId livemode) :
    Keeps env c (fun _ _ => True) (issueKey env merchantId livemode) h := by
  refine gives_bind (R := fun r h' => ∃ bytes, Did h' (.randomBytes 20) bytes ∧
    r.1 = keyTag livemode ++ hexText bytes) ?_ fun r h₁ hs₁ hr => ?_
  · exact gives_bind (R := fun bytes h' => Did h' (.randomBytes 20) bytes)
      (keeps_await (hadmin _ _ trivial) fun _ => List.mem_cons_self) fun bytes _ _ hbytes =>
        gives_pure ⟨bytes, hbytes, rfl⟩
  · obtain ⟨plaintext, keyPrefix⟩ := r
    obtain ⟨bytes, hbytes, rfl⟩ := hr
    refine gives_bind (R := fun _ _ => True) (keeps_await (hadmin _ _ ?_) fun _ => trivial)
      fun created h₂ _ _ => gives_pure trivial
    exact ⟨hlater h₁ hs₁ hgrants, bytes, hbytes, rfl⟩

theorem createMerchant_keeps (name : String) :
    Keeps env (.createMerchant name) (fun _ _ => True) (createMerchant env name) h := by
  refine gives_bind (R := fun m h' => Did h' (.merchantCreate name) m)
    (keeps_await rfl fun _ => List.mem_cons_self) fun merchant h₁ _ hmerchant => ?_
  refine gives_bind (issueKey_keeps (fun _ _ hop => hop) ⟨rfl, merchant, hmerchant, rfl⟩ ?_)
    fun _ _ _ _ => gives_pure trivial
  rintro h' hs ⟨-, m, hm, hid⟩
  exact ⟨rfl, m, hs.subset hm, hid⟩

theorem revokeKey_keeps (keyId : Uuid) :
    Keeps env (.revokeKey merchantId keyId) (fun _ _ => True) (revokeKey merchantId keyId) h :=
  gives_bind (R := fun _ _ => True) (core_await trivial fun _ => trivial) fun _ _ _ _ =>
    keeps_await rfl fun _ => trivial

theorem update_keeps (dto : UpdateMerchantDto) :
    Keeps env (.update id dto) (fun _ _ => True) (update id dto) h := by
  have hset {γ : Type} (value : Option γ) (data : γ → MerchantUpdate) (h : Hist) :
      Keeps env (.update id dto) (fun _ _ => True)
        (setGiven value fun a => await (.merchantUpdate id (data a))) h := by
    cases value with
    | none => exact gives_pure trivial
    | some a =>
        have hupdate : Justified env (.update id dto) h (.merchant (.merchantUpdate id (data a))) :=
          ⟨dto, rfl⟩
        exact gives_map (S := fun _ _ => True)
          (gives_perform (Op.merchant (.merchantUpdate id (data a))) hupdate fun _ _ => trivial)
  exact gives_bind (R := fun _ _ => True) (hset dto.livemodeEnabled _ h) fun _ h₁ _ _ =>
    hset dto.status _ h₁

/-! ### The rest of the system -/

theorem createDraft_unowned {input : CreateDraftInput} (hnone : input.merchantId = none) :
    (createDraft input).Uses Unowned := by
  refine uses_bind (uses_perform fun _ h => by cases h) fun uuid => ?_
  refine uses_bind (uses_perform fun d h => by cases h; exact hnone) fun tx => ?_
  exact uses_bind (grantRoleFlag_uses (fun _ h => by cases h) fun _ _ h => by cases h) fun _ => trivial

theorem apply_unowned (input : ApplyTransitionInput) : (apply input).Uses Unowned :=
  apply_uses (fun _ h => by cases h) (fun _ _ h => by cases h) fun _ _ h => by cases h

theorem send_unowned (sellerId id : Uuid) : (Invoices.send sellerId id).Uses Unowned := by
  have hget (id : Uuid) : (Invoices.getById id).Uses Unowned :=
    uses_bind (uses_perform fun _ h => by cases h) fun invoice => by cases invoice <;> trivial
  refine uses_bind (uses_bind (hget id) fun invoice => by split <;> trivial) fun invoice => ?_
  split
  · trivial
  · split
    · trivial
    · refine uses_bind (createDraft_unowned rfl) fun tx => ?_
      refine uses_bind (apply_unowned _) fun _ => ?_
      refine uses_bind (uses_bind (uses_perform fun _ h => by cases h) fun _ => trivial) fun number => ?_
      refine uses_bind (uses_perform fun _ h => by cases h) fun count => ?_
      split
      · exact hget id
      · refine uses_bind (uses_perform fun _ h => by cases h) fun _ => ?_
        exact uses_bind (uses_perform fun _ h => by cases h) fun _ => hget id

/-- A transaction that does not come by the API belongs to no merchant. -/
theorem core_unowned (env : Meduman.Env) {call : Meduman.Call}
    (hcall : ∀ merchantId dto, call ≠ .create (.v1 merchantId dto)) :
    (Meduman.code env call).Uses Unowned := by
  have hother (hcreate : ∀ r, call ≠ .create r) (hsend : ∀ sellerId id, call ≠ .sendInvoice sellerId id) :
      (Meduman.code env call).Uses Unowned := by
    refine (code_does env call).mono fun op hdoes d hop => ?_
    subst hop
    obtain ⟨-, ⟨r, hr⟩ | ⟨sellerId, id, hr⟩⟩ := hdoes
    · exact absurd hr (hcreate r)
    · exact absurd hr (hsend sellerId id)
  cases call with
  | create r =>
      rw [Meduman.code]
      split
      · trivial
      · rename_i input hdraft
        refine uses_map (createDraft_unowned ?_)
        cases r with
        | v1 merchantId dto => exact absurd rfl (hcall merchantId dto)
        | web sellerId dto =>
            simp only [Entrypoint.draft] at hdraft
            split at hdraft <;> cases hdraft
            rfl
        | invoice sellerId row =>
            simp only [Entrypoint.draft] at hdraft
            split at hdraft <;> cases hdraft
            rfl
        | chat userId draft text origin =>
            simp only [Entrypoint.draft] at hdraft
            split at hdraft <;> cases hdraft
            rfl
  | sendInvoice sellerId id => exact uses_map (send_unowned sellerId id)
  | _ => exact hother (fun _ h => by cases h) fun _ _ h => by cases h

/-- A call of the core that arrives does not come by the API. -/
theorem admits_core {call : Meduman.Call} {w : World} (hadm : admits env (.core call) w = true) :
    (∀ merchantId dto, call ≠ .create (.v1 merchantId dto)) ∧ Meduman.admits env.core call w.core = true := by
  refine ⟨fun merchantId dto hcall => ?_, ?_⟩
  · subst hcall
    cases hadm
  · cases call with
    | create r => rfl
    | _ => exact hadm

/-- **Every call keeps to what is justified,** and a request that is answered was let in and shows what is
its merchant's. -/
theorem code_justified {w : World} (hadm : admits env c w = true) :
    Keeps env c (fun reply h' => c.Answered env reply h') (code env c) [] := by
  have hother {γ : Type} {p : Program γ} {f : γ → Reply} (hc : ∀ header route, c ≠ .request header route)
      (hp : Keeps env c (fun _ _ => True) p []) :
      Keeps env c (fun reply h' => c.Answered env reply h') (f <$> p) [] :=
    gives_map (hp.weaken fun _ _ _ _ header route hrequest => absurd hrequest (hc header route))
  cases c with
  | request header route =>
      refine request_keeps.weaken fun reply h' _ hreply header' route' hrequest => ?_
      cases hrequest
      exact hreply
  | createMerchant name => exact hother (fun _ _ h => by cases h) (createMerchant_keeps name)
  | issueKey merchantId livemode =>
      exact hother (fun _ _ h => by cases h)
        (issueKey_keeps (fun _ _ hop => hop) ⟨rfl, rfl⟩ fun _ _ hgrants => hgrants)
  | revokeKey merchantId keyId => exact hother (fun _ _ h => by cases h) (revokeKey_keeps keyId)
  | update id dto => exact hother (fun _ _ h => by cases h) (update_keeps dto)
  | core call =>
      obtain ⟨hcall, hadmits⟩ := admits_core hadm
      have hlogged : (Meduman.code env.core call).Along Meduman.Possible
          (fun h' op => Unowned op ∧ Logged h' op) (fun _ _ => True) [] :=
        ((Meduman.code_justified hadmits).mono fun _ _ _ => trivial).uses (core_unowned env.core hcall)
          fun _ _ hjust hop => ⟨hop, hjust.logged⟩
      refine hother (fun _ _ h => by cases h) ?_
      exact along_embed coreEvents (fun _ _ _ => rfl) (fun _ _ ha => ha.core)
        (fun h' op hop => ⟨op, rfl, hop⟩) (fun _ _ _ _ _ => trivial) (fun _ _ _ _ _ => trivial) hlogged
  | onboard call =>
      refine hother (fun _ _ h => by cases h) ?_
      exact (uses_embed (uses_any _) fun op _ => ⟨op, rfl⟩).along (fun _ _ hop => hop)
        fun _ _ _ _ _ => trivial
  | outbound call =>
      refine hother (fun _ _ h => by cases h) ?_
      refine (gives_embed (P := fun _ => True) (R := fun _ _ => True) outboundHist (fun _ _ _ => rfl)
        (fun _ _ _ => trivial) (fun h' op _ hop => ⟨op, rfl, hop⟩) ?_)
      exact (Outbound.code_sends env.outbound call).mono fun _ _ _ _ _ => trivial

end Programs

end Meduman.Merchants
