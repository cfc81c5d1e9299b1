import Meduman.Merchants.Steps
import Meduman.Text.Replace

/-!
# Who is let in, and what is shown

A request is let in by a key that an administrator issued, and that was neither revoked nor of a suspended
merchant when it was looked up; what it is answered with is its merchant's.

* `Does`, `Known` : what a call did, it did in a step of the run, and what was there has lasted
* `Usable`, `IssuedBy` : a key that lets in, where it was looked up, and where it comes from
* `Seen` : what an answer shows, in the worlds of the request's own steps
* **`authorized_run`** : every request that is answered
* **`revoked_run`** : a key that was revoked
-/

set_option autoImplicit false

namespace Meduman.Merchants

open Effect

/-- What was performed, and between which worlds. -/
abbrev Deeds := Event Op.Ans Err → World → World → Prop

variable {env : Env} {does : Deeds} {h : Hist} {u w : World} {merchantId id : Uuid}
  {header : Option String} {x y : Config (service env)} {ls : List (Label (service env))} {i : Nat}

/-- The runs of the service, by their steps. -/
abbrev Runs (env : Env) (ls : List (Label (service env))) (x : Config (service env)) : Prop :=
  (⟨World.initial, []⟩ : Config (service env)).run Guard.free ls = some x

/-- What call `i` performed in the steps of the run. -/
abbrev Does (env : Env) (ls : List (Label (service env))) (i : Nat) : Deeds :=
  Config.Performs (⟨World.initial, []⟩ : Config (service env)) ls i

/-! ## What is known -/

/-- A world before or after something that was performed. -/
def Deeds.At (does : Deeds) (w : World) : Prop := ∃ e u v, does e u v ∧ (w = u ∨ w = v)

/-- What was done, was done between two worlds; and what was there has lasted. -/
structure Known (does : Deeds) (h : Hist) (w : World) : Prop where
  performed : ∀ e ∈ h, ∃ u v, does e u v ∧ ∃ choice, exec e.op choice u = some (e.ans, v)
  lasts : ∀ u, does.At u → Lasts u w

theorem lasts_reaches (h : Reaches Guard.free x y) : Lasts x.world y.world := by
  induction h with
  | refl => exact .refl _
  | tail _ hstep ih =>
      obtain ⟨l, hl⟩ := hstep
      exact ih.trans (lasts_next hl)

theorem known_run (hx : Runs env ls x) {p : Process (service env)} (hp : x.procs[i]? = some p) :
    Known (Does env ls i) p.hist x.world where
  performed e he := by
    rcases Config.performs_of_run hx hp he with ⟨q, hq, -⟩ | ⟨u, w, hdone⟩
    · cases hq
    · obtain ⟨-, choice, -, -, -, -, -, -, -, -, hexec⟩ := id hdone
      exact ⟨u, w, hdone, choice, hexec⟩
  lasts w hw := by
    obtain ⟨e, u, v, hdone, hat⟩ := hw
    obtain ⟨z, z', -, rfl, rfl, hzz, hzx⟩ := hdone.reaches hx
    rcases hat with rfl | rfl
    · exact lasts_reaches (hzz.trans hzx)
    · exact lasts_reaches hzx

theorem Known.tells (hk : Known does h w) {op : Op} {a : op.Ans}
    (hmem : (⟨op, .ok a⟩ : Event Op.Ans Err) ∈ h) : ∃ u, does.At u ∧ ∃ v, does.At v ∧ Tells op a u v := by
  obtain ⟨u, v, hdone, choice, hexec⟩ := hk.performed _ hmem
  exact ⟨u, ⟨_, u, v, hdone, .inl rfl⟩, v, ⟨_, u, v, hdone, .inr rfl⟩, exec_tells hexec⟩

/-! ### Owners -/

theorem owns_iff : w.owns merchantId id = true ↔
    ∃ a ∈ w.accounts, a.id = id ∧ a.merchantId = some merchantId := by
  simp [World.owns, List.any_eq_true, Table.mem_def]

theorem Lasts.owns (hl : Lasts u w) (ho : u.owns merchantId id = true) : w.owns merchantId id = true := by
  obtain ⟨a, ha, hrow⟩ := owns_iff.mp ho
  exact owns_iff.mpr ⟨a, hl.accounts a ha, hrow⟩

/-- An account that was found to be the merchant's, or was opened for it, is the merchant's. -/
theorem Known.owned (hk : Known does h w) (ho : Owned h merchantId id) :
    ∃ u, does.At u ∧ u.owns merchantId id = true := by
  rcases ho with ⟨a, ha⟩ | ⟨d, a, ha, rfl, rfl⟩
  · obtain ⟨u, hu, v, -, howns⟩ := hk.tells ha
    exact ⟨u, hu, howns⟩
  · obtain ⟨u, -, v, hv, hid, hrow⟩ := hk.tells ha
    exact ⟨v, hv, owns_iff.mpr ⟨d.account, hrow, hid.symm, rfl⟩⟩

theorem Known.owns (hk : Known does h w) (ho : Owned h merchantId id) : w.owns merchantId id = true := by
  obtain ⟨u, hu, howns⟩ := hk.owned ho
  exact (hk.lasts u hu).owns howns

/-- A transaction that was found to be the merchant's is the merchant's. -/
theorem Known.transaction (hk : Known does h w) (ht : TransactionRead h merchantId id) :
    ∃ t ∈ w.core.transactions, t.id = id ∧ t.merchantId = some merchantId := by
  obtain ⟨t, ht⟩ := ht
  obtain ⟨u, hu, v, -, hmem, rfl, hown⟩ := hk.tells ht
  obtain ⟨t', ht', hid, hm⟩ := (hk.lasts u hu).transactions t hmem
  exact ⟨t', ht', hid, hm.trans hown⟩

/-- Rows of one transaction, from such worlds, have one merchant. -/
theorem Known.sameMerchant (hk : Known does h w) {t t' : Transaction} {v : World} (hu : does.At u)
    (hv : does.At v) (ht : t ∈ u.core.transactions) (ht' : t' ∈ v.core.transactions) (hid : t.id = t'.id) :
    t.merchantId = t'.merchantId := by
  obtain ⟨s, hs, hsid, hsm⟩ := (hk.lasts u hu).transactions t ht
  obtain ⟨s', hs', hsid', hsm'⟩ := (hk.lasts v hv).transactions t' ht'
  obtain rfl : s = s' := Table.eq_of_clash hs hs' (by simp [Constrained.clash, hsid, hsid', hid])
  exact hsm.symm.trans hsm'

/-! ### Keys -/

/-- The header presents the key; it was looked up in this world, and it let in there. -/
structure Usable (env : Env) (does : Deeds) (header : Option String) (w : World) (k : MerchantApiKey)
    (m : Merchant) : Prop where
  presented : ∃ key, presented header = some key ∧ k.keyHash = env.hashApiKey key
  looked : ∃ v, does ⟨.merchant (.apiKeyFindUnique k.keyHash), .ok (some (k, m))⟩ w v
  stored : k ∈ w.apiKeys
  merchant : m ∈ w.merchants
  owner : m.id = k.merchantId
  unrevoked : k.revokedAt = none
  active : m.status = .active

theorem Known.usable (hk : Known does h w) {k : MerchantApiKey} {m : Merchant}
    (hfound : KeyFound env header h k m) : ∃ u, Usable env does header u k m := by
  obtain ⟨key, hkey, hdid⟩ := hfound.found
  obtain ⟨u, v, hdone, choice, hexec⟩ := hk.performed _ hdid
  obtain ⟨hstored, hhash, hmerchant, howner⟩ := exec_tells hexec
  exact ⟨u, ⟨key, hkey, hhash⟩, ⟨v, hhash ▸ hdone⟩, hstored, hmerchant, howner, hfound.unrevoked,
    hfound.active⟩

theorem Usable.looked_at {k : MerchantApiKey} {m : Merchant} (hu : Usable env does header u k m) :
    does.At u := by
  obtain ⟨v, hdone⟩ := hu.looked
  exact ⟨_, u, v, hdone, .inl rfl⟩

/-- The secret is read back from what is stored. -/
theorem decryptSecret_encrypted (gcm : Gcm) (iv : List UInt8) (secret : String) :
    decryptSecret gcm (encrypted gcm iv secret) = some secret := by
  have hcolon : ∀ bytes : List UInt8, ':' ∉ Text.hex bytes := fun bytes hmem =>
    Text.hex_forall (p := fun c => c ≠ ':') (by decide) bytes ':' hmem rfl
  have hparts : ∀ p ∈ [Text.hex iv, Text.hex (gcm.cipher iv secret).1, Text.hex (gcm.cipher iv secret).2],
      ':' ∉ p := by
    intro p hp
    simp only [List.mem_cons, List.not_mem_nil, or_false] at hp
    rcases hp with rfl | rfl | rfl <;> exact hcolon _
  have hsplit := Text.split_intercalate (List.cons_ne_nil _ _) hparts
  rw [decryptSecret, encrypted, String.toList_ofList, hsplit]
  simp only [Text.unhex_hex]
  exact gcm.decipher_cipher iv secret

theorem Secret.decrypts {secretEnc secret : String} (hs : Secret env h secretEnc secret) :
    decryptSecret env.gcm secretEnc = some secret := by
  obtain ⟨bytes, iv, -, -, -, rfl⟩ := hs
  exact decryptSecret_encrypted env.gcm iv secret

/-! ## What an answer shows -/

/-- The transaction was one of the merchant's. -/
def SeenTransaction (env : Env) (does : Deeds) (merchantId : Uuid) (v : TransactionView) : Prop :=
  ∃ u, does.At u ∧ ∃ tx ∈ u.core.transactions, tx.merchantId = some merchantId ∧ v = view env tx

/-- The view shows what is stored of its seller. -/
structure StoredSeller (w : World) (v : SellerView) : Prop where
  businessName : ∀ name, v.businessName = some name ↔ (∃ p ∈ w.core.sellerProfiles, p.userId = v.id) ∧
    ∃ c ∈ w.profiles, c.userId = v.id ∧ c.businessName = some name
  ready : v.settlementReady = true ↔ ∃ p ∈ w.core.sellerProfiles, p.userId = v.id ∧ settlementReady p = true

/-- What an answer shows was the merchant's in worlds in which the request took its steps. -/
def Seen (env : Env) (does : Deeds) (merchantId : Uuid) : Reply → Prop
  | .transaction v => SeenTransaction env does merchantId v
  | .transactions page => Within TransactionView.id page ∧
      ∀ v ∈ page.items, SeenTransaction env does merchantId v
  | .sellerCreated id name => (∃ u, does.At u ∧ u.owns merchantId id = true) ∧ ∃ u, does.At u ∧
      ∃ c ∈ u.profiles, c.merchantId = some merchantId ∧ c.userId = id ∧ c.businessName = name
  | .sellers views => ∃ u, does.At u ∧ ∀ v ∈ views, StoredSeller u v ∧
      ∃ c ∈ u.profiles, c.merchantId = some merchantId ∧ c.userId = v.id
  | .seller v => (∃ u, does.At u ∧ u.owns merchantId v.id = true) ∧ ∃ u, does.At u ∧ StoredSeller u v
  | .recipient v => ∃ u, does.At u ∧ ∃ p ∈ u.core.sellerProfiles,
      (∃ u', does.At u' ∧ u'.owns merchantId p.userId = true) ∧
        v = ⟨settlementReady p, p.settlementBankCode, p.settlementAccountName, p.settlementAccountLast4⟩
  | .endpointSet id url secret => ∃ u, does.At u ∧ ∃ e ∈ u.endpoints, e.merchantId = merchantId ∧ e.id = id ∧
      e.url = url ∧ decryptSecret env.gcm e.secretEnc = some secret
  | .endpoint v => ∀ v', v = some v' →
      ∃ u, does.At u ∧ ∃ e ∈ u.endpoints, e.merchantId = merchantId ∧ v' = e.view
  | .rotated secret => ∃ u, does.At u ∧ ∃ e ∈ u.endpoints, e.merchantId = merchantId ∧
      decryptSecret env.gcm e.secretEnc = some secret
  | .disabled => ∃ u, does.At u ∧ ∀ e ∈ u.endpoints, e.merchantId = merchantId → e.status = .disabled
  | .events page => Within EventView.id page ∧ ∀ v ∈ page.items, ∃ u, does.At u ∧
      ∃ e ∈ u.outboundEvents, e.merchantId = merchantId ∧ v = eventView e
  | _ => False

/-- What is read of a seller is what is stored of it. -/
theorem storedSeller (w : World) (id : Uuid) : StoredSeller w
    ⟨id, (namedProfile id w).bind Prod.snd, (namedProfile id w).any fun p => settlementReady p.1⟩ := by
  have hprofile : ∀ p ∈ w.core.sellerProfiles, p.userId = id →
      w.core.sellerProfiles.find (Sellers.isOf id) = some p := fun p hp hid =>
    Table.find_eq hp (by simp [Sellers.isOf, hid]) fun b hb hbid =>
      Table.eq_of_clash hb hp (by
        have hbid' : b.userId = id := beq_iff_eq.mp hbid
        simp [Constrained.clash, hid, hbid'])
  have hcolumns : ∀ c ∈ w.profiles, c.userId = id →
      w.profiles.find (fun c => c.userId == id) = some c := fun c hc hid =>
    Table.find_eq hc (by simp [hid]) fun b hb hbid =>
      Table.eq_of_clash hb hc (by simpa [Constrained.clash, hid] using hbid)
  have found {p : SellerProfile} (hp : w.core.sellerProfiles.find (Sellers.isOf id) = some p) :
      p ∈ w.core.sellerProfiles ∧ p.userId = id := by
    obtain ⟨hmem, hof⟩ := Table.find_spec hp
    exact ⟨hmem, by simpa [Sellers.isOf] using hof⟩
  constructor
  · intro name
    simp only [namedProfile]
    constructor
    · intro hname
      obtain ⟨⟨p, n⟩, hp, hn⟩ := Option.bind_eq_some_iff.mp hname
      obtain ⟨q, hq, heq⟩ := Option.map_eq_some_iff.mp hp
      obtain ⟨rfl, rfl⟩ := Prod.mk.inj heq
      obtain ⟨c, hc, hcn⟩ := Option.bind_eq_some_iff.mp hn
      obtain ⟨hmem, hid⟩ := Table.find_spec hc
      exact ⟨⟨q, found hq⟩, c, hmem, by simpa using hid, hcn⟩
    · rintro ⟨⟨p, hp, hid⟩, c, hc, hcid, hn⟩
      simp [hprofile p hp hid, hcolumns c hc hcid, hn]
  · simp only [namedProfile]
    constructor
    · intro hready
      obtain ⟨⟨p, n⟩, hp, hr⟩ := (Option.any_eq_true ..).mp hready
      obtain ⟨q, hq, heq⟩ := Option.map_eq_some_iff.mp hp
      obtain ⟨rfl, rfl⟩ := Prod.mk.inj heq
      exact ⟨q, (found hq).1, (found hq).2, hr⟩
    · rintro ⟨p, hp, hid, hr⟩
      simp [hprofile p hp hid, hr]

theorem Known.seenTransaction (hk : Known does h w) {tx : Transaction}
    (hseen : TransactionSeen h merchantId tx) :
    SeenTransaction env does merchantId (view env tx) := by
  cases hseen with
  | found id did =>
      obtain ⟨u, hu, v, -, hmem, -, hown⟩ := hk.tells did
      exact ⟨u, hu, tx, hmem, hown, rfl⟩
  | listed status take cursor rows did mem =>
      obtain ⟨u, hu, v, -, hrows⟩ := hk.tells did
      obtain ⟨hmem, hown⟩ := hrows tx mem
      exact ⟨u, hu, tx, hmem, hown, rfl⟩
  | created d did own =>
      obtain ⟨u, -, v, hv, hmem, id, hrow⟩ := hk.tells did
      exact ⟨v, hv, tx, hmem, by rw [hrow]; exact own, rfl⟩
  | published d eventId did own =>
      obtain ⟨u, -, v, hv, hmem, hid, -⟩ := hk.tells did
      obtain ⟨t, ht⟩ := own
      obtain ⟨u₀, hu₀, v₀, -, ht, htid, hown⟩ := hk.tells ht
      have hsame : tx.merchantId = t.merchantId := hk.sameMerchant hv hu₀ hmem ht (hid.trans htid.symm)
      exact ⟨v, hv, tx, hmem, hsame.trans hown, rfl⟩

/-- **What a request is answered with is its merchant's.** -/
theorem Known.seen (hk : Known does h w) {reply : Reply} (hshows : Shows env merchantId h reply) :
    Seen env does merchantId reply := by
  cases reply with
  | transaction v =>
      obtain ⟨tx, hseen, rfl⟩ := hshows
      exact hk.seenTransaction hseen
  | transactions page =>
      refine ⟨hshows.1, fun v hv => ?_⟩
      obtain ⟨tx, hseen, rfl⟩ := hshows.2 v hv
      exact hk.seenTransaction hseen
  | sellerCreated id name =>
      obtain ⟨hown, d, p, did, rfl, rfl, rfl⟩ := hshows
      obtain ⟨u, -, v, hv, hname, hrow⟩ := hk.tells did
      exact ⟨hk.owned hown, v, hv, d.columns, hrow, rfl, rfl, hname.symm⟩
  | sellers views =>
      obtain ⟨rows, did, rfl⟩ := hshows
      obtain ⟨u, hu, v, -, hrows⟩ := hk.tells did
      refine ⟨u, hu, fun v hv => ?_⟩
      obtain ⟨p, hp, rfl⟩ := List.mem_map.mp hv
      obtain ⟨hnamed, c, hc, hown, hid⟩ := hrows p hp
      have hof := storedSeller u p.1.userId
      rw [hnamed] at hof
      exact ⟨hof, c, hc, hown, hid⟩
  | seller v =>
      obtain ⟨hown, profile, did, hv⟩ := hshows
      obtain ⟨u, hu, -, -, rfl⟩ := hk.tells did
      refine ⟨hk.owned hown, u, hu, ?_⟩
      rw [hv]
      exact storedSeller u v.id
  | recipient v =>
      obtain ⟨id, d, p, hown, did, rfl⟩ := hshows
      obtain ⟨u, -, v, hv, hp, hid⟩ := hk.tells did
      exact ⟨v, hv, p, hp, hk.owned (hid ▸ hown), rfl⟩
  | endpointSet id url secret =>
      obtain ⟨d, row, did, rfl, rfl, rfl, hsecret⟩ := hshows
      obtain ⟨u, -, v, hv, hrow, hm, henc⟩ := hk.tells did
      exact ⟨v, hv, row, hrow, hm, rfl, rfl, by rw [henc]; exact hsecret.decrypts⟩
  | endpoint v =>
      obtain ⟨row, did, rfl⟩ := hshows
      intro v' hv'
      obtain ⟨e, rfl, rfl⟩ := Option.map_eq_some_iff.mp hv'
      obtain ⟨u, hu, v, -, hmem, hm⟩ := hk.tells did
      exact ⟨u, hu, e, hmem, hm, rfl⟩
  | rotated secret =>
      obtain ⟨secretEnc, did, hsecret⟩ := hshows
      obtain ⟨u, -, v, hv, e, he, hm, rfl⟩ := hk.tells did
      exact ⟨v, hv, e, he, hm, hsecret.decrypts⟩
  | disabled =>
      obtain ⟨u, -, v, hv, hall⟩ := hk.tells hshows
      exact ⟨v, hv, hall⟩
  | events page =>
      refine ⟨hshows.1, fun v hv => ?_⟩
      obtain ⟨e, status, take, cursor, rows, did, hmem, rfl⟩ := hshows.2 v hv
      obtain ⟨u, hu, v, -, hrows⟩ := hk.tells did
      obtain ⟨he, hm⟩ := hrows e hmem
      exact ⟨u, hu, e, he, hm, rfl⟩
  | _ => exact hshows.elim

/-! ## Where keys come from -/

/-- **What every call in progress promises.** -/
theorem promised {w : World} (hx : Reaches Guard.free (⟨w, []⟩ : Config (service env)) x) :
    ∀ p ∈ x.procs, ∀ q, p.prog = some q → q.Along Possible (Justified env p.call)
      (fun r h => ∀ reply, r = .ok reply → p.call.Answered env reply h) p.hist :=
  hx.along (fun hexec => ⟨_, _, _, hexec⟩) fun hadm => code_justified hadm

/-- The call issued the key: for its merchant and its mode, out of random bytes. -/
def IssuedBy (env : Env) (c : Call) (h : Hist) (k : MerchantApiKey) : Prop :=
  c.Grants h k.merchantId k.livemode ∧ ∃ bytes, Did h (.randomBytes 20) bytes ∧
    k.keyHash = env.hashApiKey (keyTag k.livemode ++ hexText bytes)

theorem IssuedBy.cons {c : Call} {k : MerchantApiKey} (hi : IssuedBy env c h k) (e : Event Op.Ans Err) :
    IssuedBy env c (e :: h) k := by
  obtain ⟨hgrants, bytes, hbytes, hhash⟩ := hi
  refine ⟨?_, bytes, List.mem_cons_of_mem e hbytes, hhash⟩
  cases c with
  | issueKey id mode => exact hgrants
  | createMerchant name =>
      obtain ⟨hmode, m, hm, hid⟩ := hgrants
      exact ⟨hmode, m, List.mem_cons_of_mem e hm, hid⟩
  | _ => exact hgrants.elim

theorem IssuedBy.same {c : Call} {k k' : MerchantApiKey} (hi : IssuedBy env c h k) (hs : SameKey k k') :
    IssuedBy env c h k' := by
  obtain ⟨hgrants, bytes, hbytes, hhash⟩ := hi
  rw [IssuedBy, hs.merchantId, hs.livemode, hs.keyHash]
  exact ⟨hgrants, bytes, hbytes, hhash⟩

/-- A key is an old one, or has just been created. -/
theorem key_origin {op : Op} {choice : Choice} {a : Except Err op.Ans} (he : exec op choice u = some (a, w))
    {k : MerchantApiKey} (hk : k ∈ w.apiKeys) :
    (∃ k₀ ∈ u.apiKeys, SameKey k₀ k) ∨ ∃ d id, op = .merchant (.apiKeyCreate d) ∧ k = d.row id := by
  cases op with
  | core op =>
      obtain ⟨o, a₀, -, -, hw⟩ := exec_core he
      rw [hw] at hk
      exact .inl ⟨k, hk, .refl k⟩
  | sellers op =>
      obtain ⟨f, a₀, s, -, -, rfl⟩ := exec_sellers he
      exact .inl ⟨k, hk, .refl k⟩
  | outbound op =>
      obtain ⟨f, a₀, o, -, -, rfl⟩ := exec_outbound he
      exact .inl ⟨k, hk, .refl k⟩
  | merchant op =>
      obtain ⟨f, hexec⟩ := exec_merchant he
      cases exec_changes hexec with
      | @apiKeyCreate d id t _ write =>
          rcases (Table.mem_create write).mp hk with hold | rfl
          · exact .inl ⟨k, hold, .refl k⟩
          · exact .inr ⟨d, id, rfl, rfl⟩
      | apiKeyRevoke write =>
          obtain ⟨k₀, hk₀, rfl⟩ := (Table.mem_update write).mp hk
          refine .inl ⟨k₀, hk₀, ?_⟩
          split
          · exact ⟨rfl, rfl, rfl, rfl, fun _ => rfl⟩
          · exact .refl k₀
      | apiKeyUpdate write =>
          obtain ⟨k₀, hk₀, rfl⟩ := (Table.mem_update write).mp hk
          refine .inl ⟨k₀, hk₀, ?_⟩
          split
          · exact ⟨rfl, rfl, rfl, rfl, fun hr => hr⟩
          · exact .refl k₀
      | _ => exact .inl ⟨k, hk, .refl k⟩

/-- Only administrators create keys. -/
theorem Justified.issues {c : Call} {d : MerchantApiKeyCreate}
    (hjust : Justified env c h (.merchant (.apiKeyCreate d))) : Issues env c h d := by
  cases c with
  | request header route =>
      rcases hjust with hguard | ⟨ctx, -, hscoped⟩
      · exact hguard.elim
      · exact hscoped.elim
  | core call =>
      obtain ⟨op, hop, -⟩ := hjust
      cases hop
  | onboard call =>
      obtain ⟨op, hop⟩ := hjust
      cases hop
  | outbound call =>
      obtain ⟨op, hop, -⟩ := hjust
      cases hop
  | _ => exact hjust

/-- **Every key was issued by an administrator.** -/
theorem issued_run (hx : Reaches Guard.free (⟨World.initial, []⟩ : Config (service env)) x) :
    ∀ k ∈ x.world.apiKeys, ∃ p ∈ x.procs, IssuedBy env p.call p.hist k := by
  obtain ⟨past, hpast⟩ := hx.passes
  refine hpast.invariant (I := fun _ (x : Config (service env)) =>
      ∀ k ∈ x.world.apiKeys, ∃ p ∈ x.procs, IssuedBy env p.call p.hist k)
    (fun k hk => absurd hk (Table.not_mem_empty k)) ?_
  intro past u v l hreach _ ih _ hnext k hk
  have hs := Config.next_step hnext
  have hold : ∀ k₀ ∈ u.world.apiKeys, SameKey k₀ k → ∃ p ∈ v.procs, IssuedBy env p.call p.hist k := by
    intro k₀ hk₀ hsame
    obtain ⟨p, hp, hissued⟩ := ih k₀ hk₀
    exact hs.exists_hist (φ := fun c h => IssuedBy env c h k) (fun _ e _ hi => hi.cons e)
      ⟨p, hp, hissued.same hsame⟩
  rcases hs.world_cases with heq | ⟨i, choice, p, op, kont, a, -, hp, hprog, hexec, hp'⟩ | ⟨m, -, hm⟩
  · exact hold k (heq ▸ hk) (.refl k)
  · rcases key_origin hexec hk with ⟨k₀, hk₀, hsame⟩ | ⟨d, id, rfl, rfl⟩
    · exact hold k₀ hk₀ hsame
    · have hissues : Issues env p.call p.hist d :=
        (promised hreach p (List.mem_of_getElem? hp) _ hprog).1.issues
      exact ⟨_, List.mem_of_getElem? hp', IssuedBy.cons (k := d.row id) hissues _⟩
  · exact hold k ((drift_cases hm).apiKeys ▸ hk) (.refl k)

/-- **A request that is answered was let in, and sees what is its merchant's,** in every run: the key it
presents was issued by an administrator, and it was usable in the world in which the request looked it up,
in live mode if the merchant had that enabled; and all it is shown belonged to the merchant of the key in
worlds in which the request took its steps. -/
theorem authorized_run (hx : Runs env ls x) {p : Process (service env)} (hp : x.procs[i]? = some p)
    {route : Route} (hcall : p.call = .request header route) {reply : Reply}
    (hreply : p.prog = some (.done (.ok reply))) :
    ∃ u k m, Usable env (Does env ls i) header u k m ∧ (k.livemode = true → m.livemodeEnabled = true) ∧
      (∃ q ∈ x.procs, IssuedBy env q.call q.hist k) ∧ Seen env (Does env ls i) k.merchantId reply := by
  have hknown := known_run hx hp
  have hreach := reaches_of_run hx
  obtain ⟨ctx, ⟨k, m, hfound, rfl, hlive⟩, hshows⟩ :=
    promised hreach p (List.mem_of_getElem? hp) _ hreply reply rfl header route hcall
  obtain ⟨u, husable⟩ := hknown.usable hfound
  obtain ⟨k', hk', hsame⟩ := (hknown.lasts u husable.looked_at).apiKeys k husable.stored
  obtain ⟨q, hq, hissued⟩ := issued_run hreach k' hk'
  have hback : IssuedBy env q.call q.hist k := by
    rw [IssuedBy, ← hsame.merchantId, ← hsame.livemode, ← hsame.keyHash]
    exact hissued
  refine ⟨u, k, m, husable, hlive, ⟨q, hq, hback⟩, ?_⟩
  rw [← husable.owner]
  exact hknown.seen hshows

namespace Demo

/-- A cipher that leaves a text as it is. -/
def gcm : Gcm where
  cipher _ plaintext := ([], plaintext.toByteArray.data.toList)
  decipher _ _ bytes := String.fromUTF8? ⟨bytes.toArray⟩
  decipher_cipher iv plaintext := by
    simp [String.fromUTF8?, String.fromUTF8, plaintext.isValidUTF8]

theorem attempts_pos : 0 < 5 := by decide

def settings : Env where
  core := Demo.silent
  ssrf := ⟨fun _ => none, fun _ => 0⟩
  gcm := gcm
  hashApiKey key := key
  hmac _ _ := ""
  stringify _ _ _ := ""
  isUrl _ := true
  isEmail _ := true
  appUrl := ""
  maxAttempts := 5
  maxAttempts_pos := attempts_pos

def shop : Uuid := ⟨"00000000-0000-4000-8011-000000000001", by decide⟩

def rival : Uuid := ⟨"00000000-0000-4000-8011-000000000002", by decide⟩

def seller : Uuid := ⟨"00000000-0000-4000-8011-000000000003", by decide⟩

/-- A test key, made of one byte. -/
def key (byte : UInt8) : String := keyTag false ++ hexText (List.replicate 20 byte)

def bearer (byte : UInt8) : String := "Bearer " ++ key byte

def serve (i : Nat) (id : Uuid) : Label (service settings) := .perform i (.merchant (.served { id := id }))

def serveCore (i : Nat) (id : Uuid) : Label (service settings) := .perform i (.core (.served { id := id }))

/-- An administrator opens a merchant, and issues its key. -/
def opened (i : Nat) (id : Uuid) (byte : UInt8) : List (Label (service settings)) :=
  [.arrive (.createMerchant "Shop"), serve i id,
    .perform i (.merchant (.served ⟨id, List.replicate 20 byte, []⟩)), serve i id]

/-- A request with the key opens a seller; the account is the next to be written. -/
def hiring (i : Nat) (byte : UInt8) : List (Label (service settings)) :=
  [.arrive (.request (some (bearer byte)) (.createSeller ⟨"Ada", none⟩)), serve i shop, serveCore i shop,
    serve i shop, serveCore i shop, serveCore i seller]

/-- The account and the profile are written. -/
def hired (i : Nat) (byte : UInt8) : List (Label (service settings)) :=
  hiring i byte ++ [serve i shop, serve i shop]

/-- The key of the shop is revoked. -/
def revoked : List (Label (service settings)) :=
  [.arrive (.revokeKey shop shop), serveCore 1 shop, serve 1 shop]

/-- It is presented. -/
def refused : List (Label (service settings)) :=
  [.arrive (.request (some (bearer 0)) .listSellers), serve 2 shop]

/-- A request with the key. -/
def isRequest (byte : UInt8) (p : Process (service settings)) : Bool :=
  match p.call with
  | .request h _ => h == some (bearer byte)
  | _ => false

def isAnswered (p : Process (service settings)) : Bool :=
  match p.prog with
  | some (.done (.ok _)) => true
  | _ => false

theorem request_of_isRequest {byte : UInt8} {p : Process (service settings)} (h : isRequest byte p = true) :
    ∃ route, p.call = .request (some (bearer byte)) route := by
  unfold isRequest at h
  split at h
  · rename_i hcall
    exact ⟨_, by rw [hcall, beq_iff_eq.mp h]⟩
  · cases h

theorem answered_of_isAnswered {p : Process (service settings)} (h : isAnswered p = true) :
    ∃ reply, p.prog = some (.done (.ok reply)) := by
  unfold isAnswered at h
  split at h
  · rename_i hprog
    exact ⟨_, hprog⟩
  · cases h

end Demo

set_option maxRecDepth 20000 in
/-- A seller that the shop opens. -/
theorem authorized_hired : ∃ (ls : List (Label (service Demo.settings))) (x : Config (service Demo.settings))
    (p : Process (service Demo.settings)) (reply : Reply), x.procs[1]? = some p ∧
      p.prog = some (.done (.ok reply)) ∧
      ∃ u k m, Usable Demo.settings (Does Demo.settings ls 1) (some (Demo.bearer 0)) u k m ∧
        (k.livemode = true → m.livemodeEnabled = true) ∧
          (∃ q ∈ x.procs, IssuedBy Demo.settings q.call q.hist k) ∧
            Seen Demo.settings (Does Demo.settings ls 1) k.merchantId reply := by
  have hrun : (((⟨World.initial, []⟩ : Config (service Demo.settings)).run Guard.free
      (Demo.opened 0 Demo.shop 0 ++ Demo.hired 1 0)).map fun x =>
        (x.procs[1]?).any fun p => Demo.isRequest 0 p && Demo.isAnswered p) = some true := by
    decide +kernel
  obtain ⟨x, hx, htest⟩ := Option.map_eq_some_iff.mp hrun
  obtain ⟨p, hp, htests⟩ := (Option.any_eq_true ..).mp htest
  obtain ⟨hrequest, hanswered⟩ := Bool.and_eq_true_iff.mp htests
  obtain ⟨route, hcall⟩ := Demo.request_of_isRequest hrequest
  obtain ⟨reply, hreply⟩ := Demo.answered_of_isAnswered hanswered
  exact ⟨_, x, p, reply, hp, hreply, authorized_run hx hp hcall hreply⟩

/-! ## Keys that let nobody in -/

/-- What a call performed was justified when it performed it. -/
theorem justified_run {w : World} (hx : Reaches Guard.free (⟨w, []⟩ : Config (service env)) x)
    {p : Process (service env)} (hp : p ∈ x.procs) {e : Event Op.Ans Err} {l : Hist}
    (hs : (e :: l) <:+ p.hist) : Justified env p.call l e.op :=
  hx.justified (fun hexec => ⟨_, _, _, hexec⟩) (fun hadm => code_justified hadm) p hp e l hs

/-- Without a key that lets in, a request looks the key up and does nothing else. -/
theorem Justified.lookup {route : Route} {op : Op} (hjust : Justified env (.request header route) h op)
    (hno : ∀ k m, ¬ KeyFound env header h k m) :
    ∃ key, presented header = some key ∧ op = .merchant (.apiKeyFindUnique (env.hashApiKey key)) := by
  rcases hjust with hguard | ⟨ctx, ⟨k, m, hfound, -⟩, -⟩
  · cases op with
    | core op =>
        cases op with
        | now =>
            obtain ⟨k, m, hfound⟩ := hguard
            exact absurd hfound (hno k m)
        | _ => exact hguard.elim
    | merchant op =>
        cases op with
        | apiKeyFindUnique keyHash =>
            obtain ⟨key, hkey, rfl⟩ := hguard
            exact ⟨key, hkey, rfl⟩
        | apiKeyUpdate id lastUsedAt =>
            obtain ⟨k, m, hfound, -⟩ := hguard
            exact absurd hfound (hno k m)
        | _ => exact hguard.elim
    | sellers op => exact hguard.elim
    | outbound op => exact hguard.elim
  · exact absurd hfound (hno k m)

/-- A lookup changes nothing. -/
theorem exec_lookup {keyHash : String} {choice : Choice}
    {a : Except Err (Op.merchant (.apiKeyFindUnique keyHash)).Ans}
    (he : exec (.merchant (.apiKeyFindUnique keyHash)) choice u = some (a, w)) : w = u := by
  obtain ⟨f, hexec⟩ := exec_merchant he
  cases exec_changes hexec
  rfl

/-- **A revoked key lets nobody in any more,** in every run: a request that arrives later and presents it is
never answered, it performs nothing but the lookup of the key, and it leaves the world as it is. -/
theorem revoked_run (hx : Reaches Guard.free (⟨World.initial, []⟩ : Config (service env)) x)
    {k : MerchantApiKey} (hk : k ∈ x.world.apiKeys) (hrevoked : k.revokedAt.isSome = true)
    (hxy : Reaches Guard.free x y) {i : Nat} (hlater : x.procs[i]? = none) {p : Process (service env)}
    (hp : y.procs[i]? = some p) {route : Route} (hcall : p.call = .request header route) {key : String}
    (hkey : presented header = some key) (hhash : k.keyHash = env.hashApiKey key) :
    (∀ reply, p.prog ≠ some (.done (.ok reply))) ∧
    (∀ e ∈ p.hist, e.op = .merchant (.apiKeyFindUnique (env.hashApiKey key))) ∧
    ∀ choice z, y.next Guard.free (.perform i choice) = some z → z.world = y.world := by
  have hy := hx.trans hxy
  have hmem := List.mem_of_getElem? hp
  obtain ⟨past, hpast⟩ := hxy.passes
  -- whatever the lookup found, it found a row of this key, which was revoked before
  have hno : ∀ k' m, ¬ KeyFound env header p.hist k' m := by
    intro k' m hfound
    obtain ⟨key', hkey', hdid⟩ := hfound.found
    obtain rfl : key' = key := Option.some.inj (hkey'.symm.trans hkey)
    rcases hpast.performed hp hdid with ⟨q, hq, -⟩ | ⟨u, hu, v, -, choice, hexec⟩
    · cases hlater.symm.trans hq
    · obtain ⟨hstored, hhash', -⟩ := exec_tells hexec
      have hlasts : Lasts x.world u := hpast.after Lasts.refl Lasts.trans lasts_next u hu
      obtain ⟨k'', hk'', hsame⟩ := hlasts.apiKeys k hk
      obtain rfl : k' = k'' := Table.eq_of_clash hstored hk'' (by
        simp [Constrained.clash, hhash', hsame.keyHash, hhash])
      have hstill := hsame.revoked hrevoked
      rw [hfound.unrevoked] at hstill
      cases hstill
  have hlookup {op : Op} {l : Hist} (hl : l <:+ p.hist) (hjust : Justified env p.call l op) :
      op = .merchant (.apiKeyFindUnique (env.hashApiKey key)) := by
    rw [hcall] at hjust
    obtain ⟨key', hkey', rfl⟩ := hjust.lookup fun k m hfound => hno k m (hfound.suffix hl)
    rw [Option.some.inj (hkey'.symm.trans hkey)]
  refine ⟨fun reply hreply => ?_, fun e he => ?_, fun choice z hz => ?_⟩
  · obtain ⟨ctx, ⟨k', m, hfound, -⟩, -⟩ := promised hy p hmem _ hreply reply rfl header route hcall
    exact hno k' m hfound
  · obtain ⟨before, l, hsplit⟩ := List.append_of_mem he
    have hs : (e :: l) <:+ p.hist := ⟨before, hsplit.symm⟩
    exact hlookup ((List.suffix_cons e l).trans hs) (justified_run hy hmem hs)
  · obtain ⟨q, op, kont, hq, hprog⟩ := Config.pending_of_perform hz
    cases hp.symm.trans hq
    obtain ⟨a, -, hexec, -⟩ := Config.next_perform hq hprog hz
    obtain rfl := hlookup (List.suffix_refl p.hist) (promised hy p hmem _ hprog).1
    exact exec_lookup hexec

set_option maxRecDepth 20000 in
/-- A request with a key that was revoked. -/
theorem revoked_refused : ∃ (x y : Config (service Demo.settings)) (p : Process (service Demo.settings)),
    Reaches Guard.free x y ∧ y.procs[2]? = some p ∧ p.hist.length = 1 ∧
      (∃ k ∈ x.world.apiKeys, k.keyHash = Demo.key 0) ∧ ∀ reply, p.prog ≠ some (.done (.ok reply)) := by
  have hrun : ((Config.run Guard.free (Demo.opened 0 Demo.shop 0 ++ Demo.revoked)
      (⟨World.initial, []⟩ : Config (service Demo.settings))).bind fun x =>
        (Config.run Guard.free Demo.refused x).map fun y =>
          decide ((x.world.apiKeys.rows.map fun k => (k.keyHash, k.revokedAt.isSome)) = [(Demo.key 0, true)] ∧
            x.procs.length = 2 ∧
              ((y.procs[2]?).any fun p => Demo.isRequest 0 p && p.hist.length == 1) = true)) =
              some true := by decide +kernel
  obtain ⟨x, y, hx, hxy, htest⟩ := exists_of_runs hrun
  obtain ⟨hkeys, hlength, hlater⟩ := of_decide_eq_true htest
  obtain ⟨⟨k, hk, hrow⟩, -⟩ := Table.of_map_eq_singleton hkeys
  obtain ⟨hhash, hrevoked⟩ := Prod.mk.inj hrow
  obtain ⟨p, hp, htests⟩ := (Option.any_eq_true ..).mp hlater
  obtain ⟨hrequest, hdone⟩ := Bool.and_eq_true_iff.mp htests
  obtain ⟨route, hcall⟩ := Demo.request_of_isRequest hrequest
  have hnone : x.procs[2]? = none := List.getElem?_eq_none hlength.le
  have hpresented : presented (some (Demo.bearer 0)) = some (Demo.key 0) := by decide +kernel
  exact ⟨x, y, p, hxy, hp, beq_iff_eq.mp hdone, ⟨k, hk, hhash⟩,
    (revoked_run hx hk hrevoked hxy hnone hp hcall hpresented hhash).1⟩

end Meduman.Merchants
