import Meduman.Merchants.Scope

/-!
# What the operations of the merchants change, and tell

* `exec_core`, `exec_sellers`, `exec_outbound`, `exec_merchant` : an operation, by whose it is
* `Changes`, `exec_changes` : what an operation of the merchants leaves
* `Lasts`, `lasts_exec`, `lasts_drift` : what stays of accounts, keys, merchants and transactions
* `Tells`, **`exec_tells`** : what an answer tells of the worlds around it
-/

set_option autoImplicit false

namespace Meduman.Merchants

open Effect

variable {u v w : World} {choice : Choice}

/-! ## Whose operation it is -/

theorem exec_merchant {op : MerchantOp} {a : Except Err op.Ans}
    (h : exec (.merchant op) choice u = some (a, w)) : ∃ f, backend.exec op f u = some (a, w) := by
  cases choice with
  | merchant f => exact ⟨f, h⟩
  | core _ => cases h
  | sellers _ => cases h
  | outbound _ => cases h

theorem exec_core {op : Meduman.Op} {a : Except Err op.Ans}
    (h : exec (.core op) choice u = some (a, w)) : ∃ o a₀, Meduman.exec op o u.core = some (a₀, w.core) ∧
      a = a₀.mapError .core ∧ w = { u with core := w.core } := by
  cases choice with
  | core o =>
      obtain ⟨⟨a₀, c⟩, hexec, heq⟩ := Option.map_eq_some_iff.mp h
      cases heq
      exact ⟨o, a₀, hexec, rfl, rfl⟩
  | merchant _ => cases h
  | sellers _ => cases h
  | outbound _ => cases h

theorem exec_sellers {op : Sellers.Op} {a : Except Err op.Ans}
    (h : exec (.sellers op) choice u = some (a, w)) : ∃ f a₀ s,
      Sellers.backend.exec op f u.sellers = some (a₀, s) ∧ a = a₀.mapError .sellers ∧
      w = u.withSellers s := by
  cases choice with
  | sellers f =>
      obtain ⟨⟨a₀, s⟩, hexec, heq⟩ := Option.map_eq_some_iff.mp h
      cases heq
      exact ⟨f, a₀, s, hexec, rfl, rfl⟩
  | merchant _ => cases h
  | core _ => cases h
  | outbound _ => cases h

theorem exec_outbound {op : Outbound.Op} {a : Except Err op.Ans}
    (h : exec (.outbound op) choice u = some (a, w)) : ∃ f a₀ o,
      Outbound.backend.exec op f u.outbound = some (a₀, o) ∧ a = a₀.mapError .outbound ∧
      w = u.withOutbound o := by
  cases choice with
  | outbound f =>
      obtain ⟨⟨a₀, o⟩, hexec, heq⟩ := Option.map_eq_some_iff.mp h
      cases heq
      exact ⟨f, a₀, o, hexec, rfl, rfl⟩
  | merchant _ => cases h
  | core _ => cases h
  | sellers _ => cases h

/-! ## Changes -/

/-- What an operation of the merchants changes. -/
inductive Changes (u : World) : MerchantOp → World → Prop
  | same {op : MerchantOp} : Changes u op u
  | merchantCreate {name : String} {id : Uuid} {t : Table Merchant}
      (write : u.merchants.create ⟨id, name, .active, false⟩ = some t) :
      Changes u (.merchantCreate name) { u with merchants := t }
  | merchantUpdate {id : Uuid} {d : MerchantUpdate} {t : Table Merchant}
      (write : u.merchants.update (fun m => m.id == id) d.apply = some t) :
      Changes u (.merchantUpdate id d) { u with merchants := t }
  | apiKeyCreate {d : MerchantApiKeyCreate} {id : Uuid} {t : Table MerchantApiKey}
      (merchant : u.hasMerchant d.merchantId = true) (write : u.apiKeys.create (d.row id) = some t) :
      Changes u (.apiKeyCreate d) { u with apiKeys := t }
  | apiKeyRevoke {id merchantId : Uuid} {revokedAt : Int} {t : Table MerchantApiKey}
      (write : u.apiKeys.update (fun k => k.id == id && k.merchantId == merchantId && k.revokedAt.isNone)
        (fun k => { k with revokedAt := some revokedAt }) = some t) :
      Changes u (.apiKeyRevoke id merchantId revokedAt) { u with apiKeys := t }
  | apiKeyUpdate {id : Uuid} {lastUsedAt : Int} {t : Table MerchantApiKey}
      (write : u.apiKeys.update (fun k => k.id == id) (fun k => { k with lastUsedAt := some lastUsedAt }) =
        some t) :
      Changes u (.apiKeyUpdate id lastUsedAt) { u with apiKeys := t }
  | userCreate {d : UserCreate} {users : Table User} {accounts : Table Account}
      (merchant : u.hasMerchant d.merchantId = true)
      (user : u.core.users.create ⟨d.id, d.roleFlags⟩ = some users)
      (account : u.accounts.create d.account = some accounts) :
      Changes u (.userCreate d) { u with core := { u.core with users := users }, accounts := accounts }
  | sellerProfileCreate {d : SellerProfileCreate} {sellerProfiles : Table SellerProfile}
      {profiles : Table ProfileColumns}
      (profile : u.core.sellerProfiles.create { userId := d.userId } = some sellerProfiles)
      (columns : u.profiles.create d.columns = some profiles) :
      Changes u (.sellerProfileCreate d)
        { u with core := { u.core with sellerProfiles := sellerProfiles }, profiles := profiles }
  | endpointCreate {d : WebhookEndpointUpsert} {id : Uuid} {t : Table WebhookEndpoint}
      (merchant : u.hasMerchant d.merchantId = true)
      (write : u.endpoints.create (d.row id u.core.clock) = some t) :
      Changes u (.webhookEndpointUpsert d) { u with endpoints := t }
  | endpointApply {d : WebhookEndpointUpsert} {t : Table WebhookEndpoint}
      (write : u.endpoints.update (fun e => e.merchantId == d.merchantId) d.apply = some t) :
      Changes u (.webhookEndpointUpsert d) { u with endpoints := t }
  | endpointSecret {merchantId : Uuid} {secretEnc : String} {t : Table WebhookEndpoint}
      (write : u.endpoints.update (fun e => e.merchantId == merchantId)
        (fun e => { e with secretEnc := secretEnc }) = some t) :
      Changes u (.webhookEndpointUpdate merchantId secretEnc) { u with endpoints := t }
  | endpointDisable {merchantId : Uuid} {t : Table WebhookEndpoint}
      (write : u.endpoints.update (fun e => e.merchantId == merchantId)
        (fun e => { e with status := .disabled }) = some t) :
      Changes u (.webhookEndpointDisable merchantId) { u with endpoints := t }

theorem effect_changes (s : Supply) (u : World) (op : MerchantOp) : Changes u op (effect s u op).2 := by
  cases op with
  | merchantCreate name =>
      simp only [effect]
      split
      · exact .same
      · exact .merchantCreate ‹_›
  | merchantUpdate id d =>
      simp only [effect]
      split
      · exact .same
      · split
        · exact .same
        · exact .merchantUpdate ‹_›
  | apiKeyCreate d =>
      simp only [effect, apiKeyCreate]
      split
      · split
        · exact .same
        · exact .apiKeyCreate ‹_› ‹_›
      · exact .same
  | apiKeyRevoke id merchantId revokedAt =>
      simp only [effect]
      split
      · exact .same
      · exact .apiKeyRevoke ‹_›
  | apiKeyUpdate id lastUsedAt =>
      simp only [effect]
      split
      · exact .same
      · split
        · exact .same
        · exact .apiKeyUpdate ‹_›
  | userCreate d =>
      simp only [effect, userCreate]
      split
      · split
        · exact .userCreate ‹_› ‹_› ‹_›
        · exact .same
      · exact .same
  | sellerProfileCreate d =>
      simp only [effect, sellerProfileCreate]
      split
      · split
        · exact .sellerProfileCreate ‹_› ‹_›
        · exact .same
      · exact .same
  | webhookEndpointUpsert d =>
      simp only [effect, webhookEndpointUpsert]
      split
      · split
        · split
          · exact .same
          · exact .endpointCreate ‹_› ‹_›
        · split
          · exact .same
          · exact .endpointApply ‹_›
      · exact .same
  | webhookEndpointUpdate merchantId secretEnc =>
      simp only [effect, webhookEndpointUpdate]
      split
      · exact .same
      · split
        · exact .same
        · exact .endpointSecret ‹_›
  | webhookEndpointDisable merchantId =>
      simp only [effect]
      split
      · exact .same
      · exact .endpointDisable ‹_›
  | _ => exact .same

/-- **Change inversion.** -/
theorem exec_changes {op : MerchantOp} {f : Fate Supply} {a : Except Err op.Ans}
    (h : backend.exec op f u = some (a, w)) : Changes u op w :=
  Backend.exec_keeps h .same fun s _ => effect_changes s u op

/-! ## What stays -/

/-- The row of the same key, still revoked if it was. -/
structure SameKey (k k' : MerchantApiKey) : Prop where
  id : k'.id = k.id
  merchantId : k'.merchantId = k.merchantId
  keyHash : k'.keyHash = k.keyHash
  livemode : k'.livemode = k.livemode
  revoked : k.revokedAt.isSome = true → k'.revokedAt.isSome = true

theorem SameKey.refl (k : MerchantApiKey) : SameKey k k := ⟨rfl, rfl, rfl, rfl, fun hr => hr⟩

theorem SameKey.trans {k k' k'' : MerchantApiKey} (h : SameKey k k') (h' : SameKey k' k'') :
    SameKey k k'' :=
  ⟨h'.id.trans h.id, h'.merchantId.trans h.merchantId, h'.keyHash.trans h.keyHash,
    h'.livemode.trans h.livemode, fun hr => h'.revoked (h.revoked hr)⟩

/-- Accounts stay as they are, keys and merchants stay, and transactions stay with their merchants. -/
structure Lasts (u w : World) : Prop where
  accounts : ∀ a ∈ u.accounts, a ∈ w.accounts
  apiKeys : ∀ k ∈ u.apiKeys, ∃ k' ∈ w.apiKeys, SameKey k k'
  merchants : ∀ m ∈ u.merchants, ∃ m' ∈ w.merchants, m'.id = m.id
  transactions : KeepsMerchants u.core w.core

theorem Lasts.of_eq (accounts : w.accounts = u.accounts) (apiKeys : w.apiKeys = u.apiKeys)
    (merchants : w.merchants = u.merchants) (transactions : w.core.transactions = u.core.transactions) :
    Lasts u w where
  accounts _ ha := accounts ▸ ha
  apiKeys k hk := ⟨k, apiKeys ▸ hk, .refl k⟩
  merchants m hm := ⟨m, merchants ▸ hm, rfl⟩
  transactions t ht := ⟨t, transactions ▸ ht, rfl, rfl⟩

theorem Lasts.refl (w : World) : Lasts w w := .of_eq rfl rfl rfl rfl

theorem Lasts.trans (huv : Lasts u v) (hvw : Lasts v w) : Lasts u w where
  accounts a ha := hvw.accounts a (huv.accounts a ha)
  apiKeys k hk := by
    obtain ⟨k', hk', hsame⟩ := huv.apiKeys k hk
    obtain ⟨k'', hk'', hsame'⟩ := hvw.apiKeys k' hk'
    exact ⟨k'', hk'', hsame.trans hsame'⟩
  merchants m hm := by
    obtain ⟨m', hm', hid⟩ := huv.merchants m hm
    obtain ⟨m'', hm'', hid'⟩ := hvw.merchants m' hm'
    exact ⟨m'', hm'', hid'.trans hid⟩
  transactions t ht := by
    obtain ⟨t', ht', hid, hm⟩ := huv.transactions t ht
    obtain ⟨t'', ht'', hid', hm'⟩ := hvw.transactions t' ht'
    exact ⟨t'', ht'', hid'.trans hid, hm'.trans hm⟩

/-- Only the keys change. -/
theorem lasts_apiKeys {t : Table MerchantApiKey} (h : ∀ k ∈ u.apiKeys, ∃ k' ∈ t, SameKey k k') :
    Lasts u { u with apiKeys := t } :=
  { Lasts.refl u with apiKeys := h }

/-- Only the merchants change. -/
theorem lasts_merchants {t : Table Merchant} (h : ∀ m ∈ u.merchants, ∃ m' ∈ t, m'.id = m.id) :
    Lasts u { u with merchants := t } :=
  { Lasts.refl u with merchants := h }

theorem lasts_changes {op : MerchantOp} (h : Changes u op w) : Lasts u w := by
  cases h with
  | same => exact .refl u
  | merchantCreate write => exact lasts_merchants (Table.exists_create write fun _ => rfl)
  | merchantUpdate write => exact lasts_merchants (Table.exists_update write (fun _ => rfl) fun _ _ _ => rfl)
  | apiKeyCreate _ write => exact lasts_apiKeys (Table.exists_create write SameKey.refl)
  | apiKeyRevoke write =>
      exact lasts_apiKeys (Table.exists_update write SameKey.refl fun _ _ _ =>
        ⟨rfl, rfl, rfl, rfl, fun _ => rfl⟩)
  | apiKeyUpdate write =>
      exact lasts_apiKeys (Table.exists_update write SameKey.refl fun _ _ _ =>
        ⟨rfl, rfl, rfl, rfl, fun hr => hr⟩)
  | userCreate _ _ account =>
      exact { Lasts.refl u with accounts := fun a ha => (Table.mem_create account).mpr (.inl ha) }
  | _ => exact .of_eq rfl rfl rfl rfl

theorem keepsMerchants_drift {m : Meduman.Move} {u w : Meduman.World} (hm : Meduman.drift m u = some w) :
    KeepsMerchants u w := by
  cases m with
  | charge reference =>
      simp only [Meduman.drift] at hm
      split at hm <;> cases hm
      exact fun t ht => ⟨t, ht, rfl, rfl⟩
  | merge source target =>
      obtain ⟨transactions, payouts, invoices, disputes, write, -, -, -, rfl⟩ := drift_merge hm
      exact Table.exists_update write (fun _ => ⟨rfl, rfl⟩) fun _ _ _ => ⟨rfl, rfl⟩
  | _ =>
      cases hm
      exact fun t ht => ⟨t, ht, rfl, rfl⟩

theorem lasts_exec {op : Op} {a : Except Err op.Ans} (h : exec op choice u = some (a, w)) : Lasts u w := by
  cases op with
  | core op =>
      obtain ⟨o, a₀, hexec, -, hw⟩ := exec_core h
      rw [hw]
      exact { Lasts.refl u with transactions := keepsMerchants_change (exec_change hexec) }
  | sellers op =>
      obtain ⟨f, a₀, s, -, -, rfl⟩ := exec_sellers h
      exact .of_eq rfl rfl rfl rfl
  | outbound op =>
      obtain ⟨f, a₀, o, -, -, rfl⟩ := exec_outbound h
      exact .of_eq rfl rfl rfl rfl
  | merchant op =>
      obtain ⟨f, hexec⟩ := exec_merchant h
      exact lasts_changes (exec_changes hexec)

/-- What the environment changes. -/
inductive Drifts (u : World) : World → Prop
  | core {m : Meduman.Move} {c : Meduman.World} (moves : Meduman.drift m u.core = some c)
      (unowned : ∀ source target, m = .merge source target →
        ∀ a ∈ u.accounts, a.id = source → a.merchantId = none) :
      Drifts u { u with core := c }
  | signUp {account : Account} {users : Table User} {accounts : Table Account}
      (unowned : account.merchantId = none) (write : u.accounts.create account = some accounts) :
      Drifts u { u with core := { u.core with users := users }, accounts := accounts }
  | record {e : Meduman.OutboundEvent} {t : Table Outbound.OutboundEvent} (recorded : e ∈ u.core.outboundEvents)
      (write : u.outboundEvents.create
        { id := e.id, merchantId := e.merchantId, type := e.type, payload := e.payload, status := .pending,
          attemptCount := 0, lastError := none, deliveredAt := none, createdAt := u.core.clock } = some t) :
      Drifts u { u with outboundEvents := t }
  | stall {jobs : Queue Uuid} : Drifts u { u with jobs := jobs }

theorem drift_cases {m : Move} (h : drift m u = some w) : Drifts u w := by
  cases m with
  | core m =>
      cases m with
      | merge source target =>
          simp only [drift] at h
          split at h
          · rename_i hallowed
            obtain ⟨c, hc, rfl⟩ := Option.map_eq_some_iff.mp h
            refine .core hc fun source' target' hm a ha hid => ?_
            cases hm
            have hrow := List.all_eq_true.mp hallowed a ha
            simpa [hid] using hrow
          · cases h
      | _ =>
          simp only [drift, if_true] at h
          obtain ⟨c, hc, rfl⟩ := Option.map_eq_some_iff.mp h
          exact .core hc fun _ _ hm => by cases hm
  | signUp account roleFlags =>
      simp only [drift] at h
      split at h
      · cases h
      · rename_i hnone
        split at h
        · cases h
          exact .signUp (by simpa using hnone) ‹_›
        · cases h
  | record eventId =>
      obtain ⟨e, he, h⟩ := Option.bind_eq_some_iff.mp h
      obtain ⟨t, ht, h⟩ := Option.bind_eq_some_iff.mp h
      obtain rfl := Option.some.inj h
      exact .record (List.mem_of_find?_eq_some he) ht
  | stall eventId =>
      cases h
      exact .stall

theorem Drifts.apiKeys (h : Drifts u w) : w.apiKeys = u.apiKeys := by
  cases h <;> rfl

theorem lasts_drift (h : Drifts u w) : Lasts u w := by
  cases h with
  | core moves => exact { Lasts.refl u with transactions := keepsMerchants_drift moves }
  | signUp _ write => exact { Lasts.refl u with accounts := fun a ha => (Table.mem_create write).mpr (.inl ha) }
  | record => exact .of_eq rfl rfl rfl rfl
  | stall => exact .of_eq rfl rfl rfl rfl

/-- **What every step keeps.** -/
theorem lasts_next {env : Env} {x y : Config (service env)} {l : Label (service env)}
    (h : x.next Guard.free l = some y) : Lasts x.world y.world := by
  rcases (Config.next_step h).world_cases with heq | ⟨i, choice, p, op, k, a, -, -, -, hexec, -⟩ | ⟨m, -, hm⟩
  · rw [heq]
    exact .refl _
  · exact lasts_exec hexec
  · exact lasts_drift (drift_cases hm)

/-! ## Answers -/

theorem mem_findMany {ρ : Type} {id : ρ → Uuid} {table : List (Listing.Dated ρ)} {filter : ρ → Bool}
    {take : Nat} {cursor : Option Uuid} {d : Listing.Dated ρ}
    (h : d ∈ Listing.findMany id table filter take cursor) : d ∈ table ∧ filter d.row = true := by
  have hsorted : d ∈ (table.insertionSort (Listing.Newer id)).filter (fun d => filter d.row) := by
    unfold Listing.findMany at h
    cases cursor with
    | none => exact List.mem_of_mem_take h
    | some c =>
        dsimp only at h
        split at h
        · cases h
        · exact (List.mem_filter.mp (List.mem_of_mem_drop (List.mem_of_mem_take h))).1
  obtain ⟨hmem, hrow⟩ := List.mem_filter.mp hsorted
  exact ⟨(List.perm_insertionSort _ table).mem_iff.mp hmem, hrow⟩

/-- What an answer tells of the worlds before and after it. -/
def Tells : (op : Op) → op.Ans → World → World → Prop
  | .core op, a, u, w => Meduman.Answered op a u.core w.core
  | .sellers (.userFindOwned merchantId id), some _, u, _ => u.owns merchantId id = true
  | .sellers (.sellerProfileUpdate id _), p, _, w => p ∈ w.core.sellerProfiles ∧ p.userId = id
  | .outbound (.outboundEventFindUnique _), some e, u, _ => e ∈ u.outboundEvents
  | .outbound (.webhookEndpointFindUnique merchantId), some row, u, _ =>
      ∃ e ∈ u.endpoints, e.merchantId = merchantId ∧ e.toWebhookEndpoint = row
  | .merchant (.randomBytes size), bytes, _, _ => bytes.length = size
  | .merchant (.apiKeyFindUnique keyHash), some (k, m), u, _ =>
      k ∈ u.apiKeys ∧ k.keyHash = keyHash ∧ m ∈ u.merchants ∧ m.id = k.merchantId
  | .merchant (.userCreate d), a, _, w => a.id = d.id ∧ d.account ∈ w.accounts
  | .merchant (.sellerProfileCreate d), p, _, w => p.2 = some d.businessName ∧ d.columns ∈ w.profiles
  | .merchant (.sellerProfileFindMany merchantId), rows, u, _ => ∀ p ∈ rows,
      namedProfile p.1.userId u = some p ∧
        ∃ c ∈ u.profiles, c.merchantId = some merchantId ∧ c.userId = p.1.userId
  | .merchant (.sellerProfileFindUnique id), found, u, _ => found = namedProfile id u
  | .merchant (.transactionFindFirst id merchantId), some t, u, _ =>
      t ∈ u.core.transactions ∧ t.id = id ∧ t.merchantId = some merchantId
  | .merchant (.transactionFindMany merchantId _ _ _), rows, u, _ =>
      ∀ t ∈ rows, t ∈ u.core.transactions ∧ t.merchantId = some merchantId
  | .merchant (.webhookEndpointUpsert d), row, _, w =>
      row ∈ w.endpoints ∧ row.merchantId = d.merchantId ∧ row.secretEnc = d.secretEnc
  | .merchant (.webhookEndpointFindUnique merchantId), some row, u, _ =>
      row ∈ u.endpoints ∧ row.merchantId = merchantId
  | .merchant (.webhookEndpointUpdate merchantId secretEnc), _, _, w =>
      ∃ e ∈ w.endpoints, e.merchantId = merchantId ∧ e.secretEnc = secretEnc
  | .merchant (.webhookEndpointDisable merchantId), _, _, w =>
      ∀ e ∈ w.endpoints, e.merchantId = merchantId → e.status = .disabled
  | .merchant (.outboundEventFindMany merchantId _ _ _), rows, u, _ =>
      ∀ e ∈ rows, e ∈ u.outboundEvents ∧ e.merchantId = merchantId
  | _, _, _, _ => True

theorem tells_apiKeyFindUnique {keyHash : String} {a : Option (MerchantApiKey × Merchant)}
    (h : apiKeyFindUnique keyHash u = .ok a) : Tells (.merchant (.apiKeyFindUnique keyHash)) a u w := by
  unfold apiKeyFindUnique at h
  split at h
  · cases h
    trivial
  · rename_i k hk
    split at h
    · cases h
    · rename_i m hm
      cases h
      obtain ⟨hkey, hhash⟩ := Table.find_spec hk
      obtain ⟨hmem, hid⟩ := Table.find_spec hm
      exact ⟨hkey, by simpa using hhash, hmem, by simpa using hid⟩

theorem tells_userCreate {d : UserCreate} {a : Account} (h : userCreate d u = (.ok a, w)) :
    Tells (.merchant (.userCreate d)) a u w := by
  unfold userCreate at h
  split at h
  · split at h
    · rename_i users accounts hu ha
      cases h
      exact ⟨rfl, (Table.mem_create ha).mpr (.inr rfl)⟩
    · cases h
  · cases h

theorem tells_sellerProfileCreate {d : SellerProfileCreate} {p : NamedProfile}
    (h : sellerProfileCreate d u = (.ok p, w)) : Tells (.merchant (.sellerProfileCreate d)) p u w := by
  unfold sellerProfileCreate at h
  split at h
  · split at h
    · rename_i sellerProfiles profiles hs hp
      cases h
      exact ⟨rfl, (Table.mem_create hp).mpr (.inr rfl)⟩
    · cases h
  · cases h

/-- A listed profile is that of a row of the merchant. -/
theorem tells_sellerProfileFindMany {merchantId : Uuid} : Tells (.merchant (.sellerProfileFindMany merchantId))
    ((u.profiles.filter fun c => c.merchantId == some merchantId).filterMap fun c =>
      namedProfile c.userId u) u w := by
  intro p hp
  obtain ⟨c, hc, hnamed⟩ := List.mem_filterMap.mp hp
  obtain ⟨hrow, hmerchant⟩ := Table.mem_filter.mp hc
  obtain ⟨q, hq, rfl⟩ := Option.map_eq_some_iff.mp hnamed
  obtain ⟨-, hof⟩ := Table.find_spec hq
  have hid : q.userId = c.userId := by simpa [Sellers.isOf] using hof
  exact ⟨by rw [hid]; exact hnamed, c, hrow, by simpa using hmerchant, hid.symm⟩

theorem tells_transactionFindMany {merchantId : Uuid} {status : Option TransactionStatus} {take : Nat}
    {cursor : Option Uuid} (dates : List Int) :
    Tells (.merchant (.transactionFindMany merchantId status take cursor))
      ((Listing.findMany Transaction.id (List.zipWith Listing.Dated.mk dates u.core.transactions.rows)
        (Listing.ofMerchant merchantId status) take cursor).map Listing.Dated.row) u w := by
  intro t ht
  obtain ⟨d, hd, rfl⟩ := List.mem_map.mp ht
  obtain ⟨hmem, hof⟩ := mem_findMany hd
  have hown : (d.row.merchantId == some merchantId) = true := (Bool.and_eq_true_iff.mp hof).1
  refine ⟨?_, by simpa using hown⟩
  rw [← List.map_uncurry_zip_eq_zipWith] at hmem
  obtain ⟨⟨date, row⟩, hpair, rfl⟩ := List.mem_map.mp hmem
  exact (List.of_mem_zip hpair).2

theorem tells_outboundEventFindMany {merchantId : Uuid} {status : Option Outbound.OutboundEventStatus}
    {take : Nat} {cursor : Option Uuid} :
    Tells (.merchant (.outboundEventFindMany merchantId status take cursor))
      ((Listing.findMany Outbound.OutboundEvent.id (u.outboundEvents.rows.map fun e => ⟨e.createdAt, e⟩)
        (ofMerchant merchantId status) take cursor).map Listing.Dated.row) u w := by
  intro e he
  obtain ⟨d, hd, rfl⟩ := List.mem_map.mp he
  obtain ⟨hmem, hof⟩ := mem_findMany hd
  obtain ⟨row, hrow, rfl⟩ := List.mem_map.mp hmem
  have hown : (row.merchantId == merchantId) = true := (Bool.and_eq_true_iff.mp hof).1
  exact ⟨hrow, by simpa using hown⟩

theorem tells_webhookEndpointUpsert {d : WebhookEndpointUpsert} {id : Uuid} {row : WebhookEndpoint}
    (h : webhookEndpointUpsert d id u = (.ok row, w)) :
    Tells (.merchant (.webhookEndpointUpsert d)) row u w := by
  unfold webhookEndpointUpsert at h
  split at h
  · split at h
    · split at h
      · cases h
      · rename_i hwrite
        cases h
        exact ⟨(Table.mem_create hwrite).mpr (.inr rfl), rfl, rfl⟩
    · rename_i e he
      split at h
      · cases h
      · rename_i hwrite
        cases h
        obtain ⟨hmem, hid⟩ := Table.find_spec he
        exact ⟨Table.mem_update_of hwrite hmem hid, beq_iff_eq.mp hid, rfl⟩
  · cases h

theorem tells_webhookEndpointUpdate {merchantId : Uuid} {secretEnc : String}
    (h : webhookEndpointUpdate merchantId secretEnc u = (.ok (), w)) :
    Tells (.merchant (.webhookEndpointUpdate merchantId secretEnc)) () u w := by
  unfold webhookEndpointUpdate at h
  split at h
  · cases h
  · rename_i e he
    split at h
    · cases h
    · rename_i hwrite
      cases h
      obtain ⟨hmem, hid⟩ := Table.find_spec he
      exact ⟨_, Table.mem_update_of hwrite hmem hid, by simpa using hid, rfl⟩

theorem effect_tells {op : MerchantOp} {s : Supply} {a : op.Ans} (hfits : op.fits s u = true)
    (h : effect s u op = (.ok a, w)) : Tells (.merchant op) a u w := by
  cases op with
  | randomBytes size =>
      cases h
      exact beq_iff_eq.mp hfits
  | apiKeyFindUnique keyHash => exact tells_apiKeyFindUnique (Prod.mk.inj h).1
  | userCreate d => exact tells_userCreate h
  | sellerProfileCreate d => exact tells_sellerProfileCreate h
  | sellerProfileFindMany merchantId =>
      cases h
      exact tells_sellerProfileFindMany
  | sellerProfileFindUnique id =>
      cases h
      rfl
  | transactionFindFirst id merchantId =>
      cases a with
      | none => trivial
      | some t =>
          obtain ⟨hmem, hrow⟩ := Table.find_spec (Except.ok.inj (Prod.mk.inj h).1)
          obtain ⟨hid, hown⟩ := Bool.and_eq_true_iff.mp hrow
          exact ⟨hmem, beq_iff_eq.mp hid, beq_iff_eq.mp hown⟩
  | transactionFindMany merchantId status take cursor =>
      cases h
      exact tells_transactionFindMany s.dates
  | webhookEndpointUpsert d => exact tells_webhookEndpointUpsert h
  | webhookEndpointFindUnique merchantId =>
      cases a with
      | none => trivial
      | some row =>
          obtain ⟨hmem, hid⟩ := Table.find_spec (Except.ok.inj (Prod.mk.inj h).1)
          exact ⟨hmem, by simpa using hid⟩
  | webhookEndpointUpdate merchantId secretEnc => exact tells_webhookEndpointUpdate h
  | webhookEndpointDisable merchantId =>
      simp only [effect] at h
      split at h
      · cases h
      · rename_i hwrite
        cases h
        intro e he hid
        obtain ⟨e₀, he₀, rfl⟩ := (Table.mem_update hwrite).mp he
        split at hid <;> rename_i hsel
        · rw [if_pos hsel]
        · exact absurd (beq_iff_eq.mpr hid) hsel
  | outboundEventFindMany merchantId status take cursor =>
      cases h
      exact tells_outboundEventFindMany
  | _ => trivial

theorem sellers_tells {op : Sellers.Op} {s : String} {a : op.Ans} {sw : Sellers.World}
    (h : Sellers.effect s u.sellers op = (.ok a, sw)) : Tells (.sellers op) a u (u.withSellers sw) := by
  cases op with
  | userFindOwned merchantId id =>
      cases a with
      | none => trivial
      | some found =>
          obtain ⟨hmem, hrow⟩ := Table.find_spec (Except.ok.inj (Prod.mk.inj h).1)
          obtain ⟨account, haccount, rfl⟩ := List.mem_map.mp hmem
          exact List.any_eq_true.mpr ⟨account, haccount, hrow⟩
  | sellerProfileUpdate id d =>
      simp only [Sellers.effect, Sellers.updateProfile] at h
      split at h
      · cases h
      · rename_i p hp
        split at h
        · cases h
        · rename_i hwrite
          cases h
          obtain ⟨hmem, hof⟩ := Table.find_spec hp
          exact ⟨Table.mem_update_of hwrite hmem hof, beq_iff_eq.mp hof⟩
  | _ => trivial

theorem outbound_tells {op : Outbound.Op} {s : Outbound.Supply} {a : op.Ans} {o : Outbound.World}
    (h : Outbound.effect s u.outbound op = (.ok a, o)) : Tells (.outbound op) a u (u.withOutbound o) := by
  cases op with
  | outboundEventFindUnique id =>
      cases a with
      | none => trivial
      | some e => exact (Table.find_spec (Except.ok.inj (Prod.mk.inj h).1)).1
  | webhookEndpointFindUnique merchantId =>
      cases a with
      | none => trivial
      | some row =>
          obtain ⟨hmem, hid⟩ := Table.find_spec (Except.ok.inj (Prod.mk.inj h).1)
          obtain ⟨e, he, rfl⟩ := List.mem_map.mp hmem
          exact ⟨e, he, by simpa using hid, rfl⟩
  | _ => trivial

/-- **Answer inversion.** -/
theorem exec_tells {op : Op} {a : op.Ans} (h : exec op choice u = some (.ok a, w)) : Tells op a u w := by
  cases op with
  | core op =>
      obtain ⟨o, a₀, hexec, ha, -⟩ := exec_core h
      cases a₀ with
      | error e => cases ha
      | ok a₀ =>
          cases ha
          exact exec_answered hexec
  | sellers op =>
      obtain ⟨f, a₀, s, hexec, ha, rfl⟩ := exec_sellers h
      cases a₀ with
      | error e => cases ha
      | ok a₀ =>
          cases ha
          obtain ⟨code, -, heff⟩ := Backend.exec_ok hexec
          exact sellers_tells heff
  | outbound op =>
      obtain ⟨f, a₀, o, hexec, ha, rfl⟩ := exec_outbound h
      cases a₀ with
      | error e => cases ha
      | ok a₀ =>
          cases ha
          obtain ⟨s, -, heff⟩ := Backend.exec_ok hexec
          exact outbound_tells heff
  | merchant op =>
      obtain ⟨f, hexec⟩ := exec_merchant h
      obtain ⟨s, hfits, heff⟩ := Backend.exec_ok hexec
      exact effect_tells hfits heff

end Meduman.Merchants
