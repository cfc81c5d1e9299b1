import Meduman.Merchants.Access

/-!
# A request keeps to its merchant

What a request writes belongs to the merchant of the key it was let in by: rows of others, and everything
that is no merchant's, stay as they are.

* `Contained`, `Confined` : outside of a merchant nothing changes
* `SameTenant` : a merchant has what it had
* **`confined_run`** : every step of a request
* **`isolated_run`** : a merchant, while others use the API
-/

set_option autoImplicit false

namespace Meduman.Merchants

open Effect

variable {env : Env} {does : Deeds} {h : Hist} {u w : World} {merchantId : Uuid}
  {header : Option String} {ctx : MerchantContext} {x y : Config (service env)}
  {ls : List (Label (service env))} {i : Nat}

/-! ## Outside of a merchant -/

/-- Outside of the merchant's transactions and the accounts it owns, the core is the same; what is logged
is about these, and by the merchant or its sellers, and nothing is taken out of a queue or a log. -/
structure Contained (merchantId : Uuid) (own : Uuid → Bool) (u w : Meduman.World) : Prop where
  transactions : (w.transactions.filter fun t => t.merchantId != some merchantId) =
    u.transactions.filter fun t => t.merchantId != some merchantId
  users : (w.users.filter fun a => !own a.id) = u.users.filter fun a => !own a.id
  sellerProfiles : (w.sellerProfiles.filter fun p => !own p.userId) =
    u.sellerProfiles.filter fun p => !own p.userId
  timeline : ∃ l, w.timeline = u.timeline ++ l ∧ ∀ e ∈ l, ∃ t ∈ w.transactions, t.id = e.transactionId ∧
    t.merchantId = some merchantId
  auditLogs : ∃ l, w.auditLogs = u.auditLogs ++ l ∧ ∀ e ∈ l, e.actorId = some merchantId.text ∨
    ∃ id : Uuid, own id = true ∧ e.actorId = some id.text
  outboundEvents : ∃ l, w.outboundEvents = u.outboundEvents ++ l ∧ ∀ e ∈ l, e.merchantId = merchantId
  timelineCreatedAt : u.timelineCreatedAt <+: w.timelineCreatedAt
  webhookDeliveries : u.webhookDeliveries <+: w.webhookDeliveries
  rest : w = { u with
    transactions := w.transactions, users := w.users, sellerProfiles := w.sellerProfiles
    timeline := w.timeline, timelineCreatedAt := w.timelineCreatedAt, auditLogs := w.auditLogs
    outboundEvents := w.outboundEvents, webhookDeliveries := w.webhookDeliveries }

/-- **Outside of the merchant nothing changes.** -/
structure Confined (merchantId : Uuid) (u w : World) : Prop where
  accounts : (w.accounts.filter fun a => a.merchantId != some merchantId) =
    u.accounts.filter fun a => a.merchantId != some merchantId
  profiles : (w.profiles.filter fun c => c.merchantId != some merchantId) =
    u.profiles.filter fun c => c.merchantId != some merchantId
  apiKeys : (w.apiKeys.filter fun k => k.merchantId != merchantId) =
    u.apiKeys.filter fun k => k.merchantId != merchantId
  endpoints : (w.endpoints.filter fun e => e.merchantId != merchantId) =
    u.endpoints.filter fun e => e.merchantId != merchantId
  core : Contained merchantId (w.owns merchantId) u.core w.core
  merchants : w.merchants = u.merchants
  outboundEvents : w.outboundEvents = u.outboundEvents
  jobs : w.jobs = u.jobs

section Core

variable {own : Uuid → Bool} {c d : Meduman.World}

/-- Nothing is added to a log. -/
theorem nothing_added {α : Type} {l : List α} {P : α → Prop} : ∃ l', l = l ++ l' ∧ ∀ e ∈ l', P e :=
  ⟨[], (List.append_nil l).symm, fun _ h => absurd h List.not_mem_nil⟩

theorem Contained.refl (c : Meduman.World) : Contained merchantId own c c where
  transactions := rfl
  users := rfl
  sellerProfiles := rfl
  timeline := nothing_added
  auditLogs := nothing_added
  outboundEvents := nothing_added
  timelineCreatedAt := List.prefix_rfl
  webhookDeliveries := List.prefix_rfl
  rest := rfl

theorem Contained.of_transactions {t : Table Transaction}
    (h : (t.filter fun t => t.merchantId != some merchantId) =
      c.transactions.filter fun t => t.merchantId != some merchantId) :
    Contained merchantId own c { c with transactions := t } :=
  { Contained.refl c with transactions := h, timeline := nothing_added, rest := rfl }

theorem Contained.of_users {t : Table User}
    (h : (t.filter fun a => !own a.id) = c.users.filter fun a => !own a.id) :
    Contained merchantId own c { c with users := t } :=
  { Contained.refl c with users := h, rest := rfl }

theorem Contained.of_sellerProfiles {t : Table SellerProfile}
    (h : (t.filter fun p => !own p.userId) = c.sellerProfiles.filter fun p => !own p.userId) :
    Contained merchantId own c { c with sellerProfiles := t } :=
  { Contained.refl c with sellerProfiles := h, rest := rfl }

/-- An audit row of one of the merchant's sellers. -/
theorem Contained.of_auditLog {e : AuditLog} (h : ∃ id : Uuid, own id = true ∧ e.actorId = some id.text) :
    Contained merchantId own c { c with auditLogs := c.auditLogs ++ [e] } :=
  { Contained.refl c with
    auditLogs := ⟨[e], rfl, fun e' he => .inr (by rw [List.mem_singleton.mp he]; exact h)⟩
    rest := rfl }

/-- A delivery that is enqueued. -/
theorem Contained.of_delivery (eventId : Uuid) :
    Contained merchantId own c { c with webhookDeliveries := c.webhookDeliveries ++ [eventId] } :=
  { Contained.refl c with webhookDeliveries := List.prefix_append _ _, rest := rfl }

theorem Contained.of_eq (h : d = c) : Contained merchantId own c d := by
  rw [h]
  exact .refl c

/-- A new transaction of the merchant. -/
theorem contained_transactionCreate {r : TransactionCreate} {o : Outcome}
    {a : Except Meduman.Err (Meduman.Op.transactionCreate r).Ans} (hr : r.merchantId = some merchantId)
    (he : Meduman.exec (.transactionCreate r) o c = some (a, d)) : Contained merchantId own c d := by
  rcases exec_cases he with ⟨rfl, -⟩ | ⟨s, -, rfl, -⟩
  · exact .refl d
  · simp only [Meduman.effect]
    split
    · split
      · exact .refl c
      · rename_i hwrite
        have hrow : ((r.row s.id).merchantId != some merchantId) = false := by
          rw [show (r.row s.id).merchantId = r.merchantId from rfl, hr]
          exact bne_self_eq_false _
        exact .of_transactions (Table.filter_create hwrite hrow)
    · exact .refl c

/-- Role flags of an account the merchant owns. -/
theorem contained_userUpdateRoleFlags {id : Uuid} {flags : List UserRole} {o : Outcome}
    {a : Except Meduman.Err (Meduman.Op.userUpdateRoleFlags id flags).Ans} (hown : own id = true)
    (he : Meduman.exec (.userUpdateRoleFlags id flags) o c = some (a, d)) : Contained merchantId own c d := by
  rcases exec_cases he with ⟨rfl, -⟩ | ⟨s, -, rfl, -⟩
  · exact .refl d
  · simp only [Meduman.effect]
    split
    · exact .refl c
    · rename_i hwrite
      refine .of_users (Table.filter_update hwrite fun a _ ha => ?_)
      obtain rfl : a.id = id := beq_iff_eq.mp ha
      exact ⟨by simp [hown], by simp [hown]⟩

/-- A transition of one of the merchant's transactions. -/
theorem contained_commit {t : Transaction} {r : TransitionWrite} {o : Outcome}
    {a : Except Meduman.Err (Meduman.Op.commitTransition r).Ans} (ht : t ∈ c.transactions)
    (hid : t.id = r.transactionId) (hm : t.merchantId = some merchantId)
    (htimeline : r.timeline.transactionId = r.transactionId)
    (haudit : r.audit.actorId = some merchantId.text) (hout : ∀ e, r.outbound = some e → e.1 = merchantId)
    (he : Meduman.exec (.commitTransition r) o c = some (a, d)) : Contained merchantId own c d := by
  have hselected : ∀ t' ∈ c.transactions, r.selects t' = true → t' = t := by
    intro t' ht' hsel
    have hid' : t'.id = r.transactionId := beq_iff_eq.mp (Bool.and_eq_true_iff.mp hsel).1
    exact Table.eq_of_clash ht' ht (by simp [Constrained.clash, hid', hid])
  rcases exec_cases he with ⟨rfl, -⟩ | ⟨s, -, hd, -⟩
  · exact .refl d
  rcases commitTransition_world r s c with heq | ⟨t₀, transactions, hfind, hwrite, heq⟩
  · exact .of_eq (hd.trans heq)
  obtain rfl : d = c.committed r s.id transactions := hd.trans heq
  obtain ⟨ht₀, hsel₀⟩ := Table.find_spec hfind
  obtain rfl := hselected t₀ ht₀ hsel₀
  refine ⟨Table.filter_update hwrite fun t' ht' hsel => ?_, rfl, rfl, ⟨_, rfl, fun e he => ?_⟩,
    ⟨_, rfl, fun e he => ?_⟩, ⟨_, rfl, fun e he => ?_⟩, List.prefix_append _ _, List.prefix_rfl, rfl⟩
  · obtain rfl := hselected t' ht' hsel
    exact ⟨by simp [hm], by simp [hm]⟩
  · obtain rfl := List.mem_singleton.mp he
    exact ⟨_, Table.mem_update_of hwrite ht₀ hsel₀, hid.trans htimeline.symm, hm⟩
  · obtain rfl := List.mem_singleton.mp he
    exact .inl haudit
  · obtain ⟨e', he', rfl⟩ := List.mem_map.mp he
    exact hout e' (Option.mem_toList.mp he')

end Core

/-! ## What a request does -/

theorem Confined.refl (w : World) : Confined merchantId w w :=
  ⟨rfl, rfl, rfl, rfl, .refl _, rfl, rfl, rfl⟩

/-- Only the core changes. -/
theorem confined_core {c : Meduman.World} (hc : Contained merchantId (u.owns merchantId) u.core c) :
    Confined merchantId u { u with core := c } :=
  ⟨rfl, rfl, rfl, rfl, hc, rfl, rfl, rfl⟩

/-- Only the keys change. -/
theorem confined_apiKeys {t : Table MerchantApiKey}
    (ht : (t.filter fun k => k.merchantId != merchantId) =
      u.apiKeys.filter fun k => k.merchantId != merchantId) :
    Confined merchantId u { u with apiKeys := t } :=
  ⟨rfl, rfl, ht, rfl, .refl _, rfl, rfl, rfl⟩

/-- Only the endpoints change. -/
theorem confined_endpoints {t : Table WebhookEndpoint}
    (ht : (t.filter fun e => e.merchantId != merchantId) =
      u.endpoints.filter fun e => e.merchantId != merchantId) :
    Confined merchantId u { u with endpoints := t } :=
  ⟨rfl, rfl, rfl, ht, .refl _, rfl, rfl, rfl⟩

theorem confined_endpoint_update {t : Table WebhookEndpoint} {f : WebhookEndpoint → WebhookEndpoint}
    (hwrite : u.endpoints.update (fun e => e.merchantId == merchantId) f = some t)
    (hf : ∀ e, (f e).merchantId = e.merchantId) :
    Confined merchantId u { u with endpoints := t } := by
  refine confined_endpoints (Table.filter_update hwrite fun e _ he => ?_)
  have hm : e.merchantId = merchantId := beq_iff_eq.mp he
  exact ⟨by simp [hm], by simp [hf, hm]⟩

section Steps

variable {choice : Choice}

/-- What a request does in the core. -/
theorem scoped_core {op : Meduman.Op} {a : Except Err op.Ans} (hk : Known does h u)
    (hscoped : Scoped env ctx h (.core op)) (he : exec (.core op) choice u = some (a, w)) :
    Confined ctx.id u w := by
  obtain ⟨o, a₀, hexec, -, hw⟩ := exec_core he
  rw [hw]
  refine confined_core ?_
  cases op with
  | transactionCreate d => exact contained_transactionCreate hscoped.1 hexec
  | userUpdateRoleFlags id flags => exact contained_userUpdateRoleFlags (hk.owns hscoped) hexec
  | commitTransition d =>
      obtain ⟨hread, tx, disputes, nextState, hd, hload⟩ := hscoped
      obtain ⟨t, ht, hid, hm⟩ := hk.transaction hread
      obtain ⟨v, hv, _, -, htx, htxid⟩ := hk.tells hload
      obtain ⟨t', ht', hid', hm'⟩ := (hk.lasts v hv).transactions tx htx
      obtain rfl : t' = t := Table.eq_of_clash ht' ht (by simp [Constrained.clash, hid', htxid, hid])
      have htimeline : d.timeline.transactionId = d.transactionId :=
        congrArg (fun d : TransitionWrite => d.timeline.transactionId) hd
      have haudit : d.audit.actorId = some ctx.id.text :=
        congrArg (fun d : TransitionWrite => d.audit.actorId) hd
      have hout : d.outbound = recordForTransition (publication ctx d.transactionId).event tx nextState :=
        congrArg TransitionWrite.outbound hd
      refine contained_commit ht hid hm htimeline haudit (fun e heq => ?_) hexec
      rw [hout, recordForTransition, ← hm', hm] at heq
      split at heq
      · rename_i merchantId _ hsome _
        cases heq
        exact (Option.some.inj hsome).symm
      · cases heq
  | randomUUID => rcases exec_cases hexec with ⟨heq, -⟩ | ⟨s, -, heq, -⟩ <;> exact .of_eq heq
  | userFindUnique id => rcases exec_cases hexec with ⟨heq, -⟩ | ⟨s, -, heq, -⟩ <;> exact .of_eq heq
  | transactionFindWithDisputes id statuses =>
      rcases exec_cases hexec with ⟨heq, -⟩ | ⟨s, -, heq, -⟩ <;> exact .of_eq heq
  | enqueueWebhookDelivery eventId =>
      rcases exec_cases hexec with ⟨heq, -⟩ | ⟨s, -, heq, -⟩
      · exact .of_eq heq
      · rw [heq]
        exact .of_delivery _
  | _ => exact hscoped.elim

/-- What it does with the payout destinations. -/
theorem scoped_sellers {op : Sellers.Op} {a : Except Err op.Ans} (hk : Known does h u)
    (hscoped : Scoped env ctx h (.sellers op)) (he : exec (.sellers op) choice u = some (a, w)) :
    Confined ctx.id u w := by
  obtain ⟨f, a₀, s, hexec, -, rfl⟩ := exec_sellers he
  have hcore : Contained ctx.id (u.owns ctx.id) u.core (u.withSellers s).core := by
    refine Backend.exec_keeps
      (P := fun s => Contained ctx.id (u.owns ctx.id) u.core (u.withSellers s).core) hexec (.refl _)
      fun code _ => ?_
    cases op with
    | sellerProfileCreate id =>
        have hown : u.owns ctx.id id = true := hk.owns hscoped
        simp only [Sellers.backend, Sellers.effect, Sellers.createProfile]
        split
        · exact .refl _
        · split
          · exact .refl _
          · rename_i hwrite
            exact .of_sellerProfiles (Table.filter_create hwrite (by simp [hown]))
    | sellerProfileUpdate id d =>
        have hown : u.owns ctx.id id = true := hk.owns hscoped
        simp only [Sellers.backend, Sellers.effect, Sellers.updateProfile]
        split
        · exact .refl _
        · split
          · exact .refl _
          · rename_i hwrite
            refine .of_sellerProfiles (Table.filter_update hwrite fun p _ hp => ?_)
            obtain rfl : p.userId = id := beq_iff_eq.mp hp
            exact ⟨by simp [hown], by simp [hown, RecipientUpdate.apply]⟩
    | auditLogCreate d =>
        obtain ⟨id, hactor, hown⟩ := hscoped
        exact .of_auditLog ⟨id, hk.owns hown, hactor⟩
    | _ => exact .refl _
  exact confined_core hcore

/-- What it does with the rows of merchants. -/
theorem scoped_merchant {op : MerchantOp} {a : Except Err op.Ans} (hk : Known does h u)
    (hscoped : Scoped env ctx h (.merchant op)) (he : exec (.merchant op) choice u = some (a, w)) :
    Confined ctx.id u w := by
  obtain ⟨f, hexec⟩ := exec_merchant he
  cases exec_changes hexec with
  | same => exact .refl u
  | @userCreate d users accounts _ user account =>
      have hm : d.merchantId = ctx.id := hscoped
      have hown : World.owns { u with core := { u.core with users := users }, accounts := accounts } ctx.id
          d.id = true :=
        owns_iff.mpr ⟨d.account, (Table.mem_create account).mpr (.inr rfl), rfl, congrArg some hm⟩
      refine ⟨Table.filter_create account ?_, rfl, rfl, rfl,
        .of_users (Table.filter_create user ?_), rfl, rfl, rfl⟩
      · simp [UserCreate.account, hm]
      · simp [hown]
  | @sellerProfileCreate d sellerProfiles profiles profile columns =>
      obtain ⟨hm, hread⟩ := hscoped
      have hown : u.owns ctx.id d.userId = true := hk.owns hread
      refine ⟨rfl, Table.filter_create columns ?_, rfl, rfl,
        .of_sellerProfiles (Table.filter_create profile ?_), rfl, rfl, rfl⟩
      · simp [SellerProfileCreate.columns, hm]
      · have hsame : World.owns { u with
            core := { u.core with sellerProfiles := sellerProfiles }, profiles := profiles } ctx.id d.userId =
              u.owns ctx.id d.userId := rfl
        simp [hsame, hown]
  | @endpointCreate d id t _ write =>
      obtain ⟨hm, -⟩ := hscoped
      exact confined_endpoints (Table.filter_create write (by simp [WebhookEndpointUpsert.row, hm]))
  | @endpointApply d t write =>
      obtain ⟨hm, -⟩ := hscoped
      rw [hm] at write
      exact confined_endpoint_update write fun _ => rfl
  | endpointSecret write =>
      obtain ⟨rfl, -⟩ := hscoped
      exact confined_endpoint_update write fun _ => rfl
  | endpointDisable write =>
      obtain rfl := hscoped
      exact confined_endpoint_update write fun _ => rfl
  | _ => exact hscoped.elim

/-- **What a request does for its merchant is confined to it.** -/
theorem scoped_confined {op : Op} {a : Except Err op.Ans} (hk : Known does h u)
    (hscoped : Scoped env ctx h op) (he : exec op choice u = some (a, w)) : Confined ctx.id u w := by
  cases op with
  | core op => exact scoped_core hk hscoped he
  | sellers op => exact scoped_sellers hk hscoped he
  | merchant op => exact scoped_merchant hk hscoped he
  | outbound op => exact hscoped.elim

/-- The guard changes the row of the key it found, and nothing else. -/
theorem guarding_confined {op : Op} {a : Except Err op.Ans} (hk : Known does h u)
    (hguard : Guarding env header h op) (he : exec op choice u = some (a, w)) :
    w = u ∨ ∃ k m, KeyFound env header h k m ∧ Confined k.merchantId u w := by
  cases op with
  | core op =>
      cases op with
      | now =>
          obtain ⟨o, a₀, hexec, -, hw⟩ := exec_core he
          have hsame : w.core = u.core := by
            rcases exec_cases hexec with ⟨heq, -⟩ | ⟨s, -, heq, -⟩ <;> exact heq
          exact .inl (by rw [hw, hsame])
      | _ => exact hguard.elim
  | merchant op =>
      cases op with
      | apiKeyFindUnique keyHash => exact .inl (exec_lookup he)
      | apiKeyUpdate id lastUsedAt =>
          obtain ⟨k, m, hfound, rfl⟩ := hguard
          refine .inr ⟨k, m, hfound, ?_⟩
          obtain ⟨v, husable⟩ := hk.usable hfound
          obtain ⟨k₀, hk₀, hsame⟩ := (hk.lasts v husable.looked_at).apiKeys k husable.stored
          obtain ⟨f, hexec⟩ := exec_merchant he
          cases exec_changes hexec with
          | same => exact .refl u
          | apiKeyUpdate write =>
              refine confined_apiKeys (Table.filter_update write fun k' hk' hid => ?_)
              obtain rfl : k' = k₀ := Table.eq_of_clash hk' hk₀ (by
                simp [Constrained.clash, beq_iff_eq.mp hid, hsame.id])
              exact ⟨by simp [hsame.merchantId], by simp [hsame.merchantId]⟩
      | _ => exact hguard.elim
  | sellers op => exact hguard.elim
  | outbound op => exact hguard.elim

end Steps

/-- **Every step of a request is confined to its merchant,** in every run: it leaves the world as it is, or
changes rows of the merchant only whose key the request presents, and that was usable in the world in which
the request looked it up. -/
theorem confined_run (hx : Runs env ls x) {p : Process (service env)} (hp : x.procs[i]? = some p)
    {route : Route} (hcall : p.call = .request header route) {choice : Choice}
    (hnext : x.next Guard.free (.perform i choice) = some y) :
    y.world = x.world ∨ ∃ u k m, Usable env (Does env ls i) header u k m ∧
      Confined k.merchantId x.world y.world := by
  have hmem := List.mem_of_getElem? hp
  have hknown := known_run hx hp
  obtain ⟨q, op, kont, hq, hprog⟩ := Config.pending_of_perform hnext
  cases hp.symm.trans hq
  obtain ⟨a, -, hexec, -⟩ := Config.next_perform hq hprog hnext
  have hjust := (promised (reaches_of_run hx) p hmem _ hprog).1
  rw [hcall] at hjust
  rcases hjust with hguard | ⟨ctx, ⟨k, m, hfound, rfl, -⟩, hscoped⟩
  · rcases guarding_confined hknown hguard hexec with hsame | ⟨k, m, hfound, hconfined⟩
    · exact .inl hsame
    · obtain ⟨u, husable⟩ := hknown.usable hfound
      exact .inr ⟨u, k, m, husable, hconfined⟩
  · obtain ⟨u, husable⟩ := hknown.usable hfound
    refine .inr ⟨u, k, m, husable, ?_⟩
    have hconfined := scoped_confined hknown hscoped hexec
    rwa [husable.owner] at hconfined

set_option maxRecDepth 20000 in
/-- The account of a seller. -/
theorem confined_hiring : ∃ (ls : List (Label (service Demo.settings))) (x y : Config (service Demo.settings)),
    x.world.accounts.rows = [] ∧ y.world.accounts.rows.length = 1 ∧ ∃ u k m,
      Usable Demo.settings (Does Demo.settings ls 1) (some (Demo.bearer 0)) u k m ∧
        Confined k.merchantId x.world y.world := by
  have hrun : (((⟨World.initial, []⟩ : Config (service Demo.settings)).run Guard.free
      (Demo.opened 0 Demo.shop 0 ++ Demo.hiring 1 0)).bind
        fun x => (x.next Guard.free (Demo.serve 1 Demo.shop)).map fun y =>
          decide (x.world.accounts.rows = [] ∧ y.world.accounts.rows.length = 1 ∧
            (x.procs[1]?).any (Demo.isRequest 0) = true)) = some true := by decide +kernel
  obtain ⟨x, hx, hrun⟩ := Option.bind_eq_some_iff.mp hrun
  obtain ⟨y, hnext, htest⟩ := Option.map_eq_some_iff.mp hrun
  obtain ⟨hnone, hone, hrequest⟩ := of_decide_eq_true htest
  obtain ⟨p, hp, hrequest⟩ := (Option.any_eq_true ..).mp hrequest
  obtain ⟨route, hcall⟩ := Demo.request_of_isRequest hrequest
  refine ⟨Demo.opened 0 Demo.shop 0 ++ Demo.hiring 1 0, x, y, hnone, hone, ?_⟩
  rcases confined_run hx hp hcall hnext with hsame | hconfined
  · rw [hsame, hnone] at hone
    cases hone
  · exact hconfined

/-! ## Merchants beside each other -/

/-- A merchant has what it had, and so have the accounts it owns: their role flags, and their payout
destinations. -/
structure SameTenant (merchantId : Uuid) (u w : World) : Prop where
  transactions : (w.core.transactions.filter fun t => t.merchantId == some merchantId) =
    u.core.transactions.filter fun t => t.merchantId == some merchantId
  accounts : (w.accounts.filter fun a => a.merchantId == some merchantId) =
    u.accounts.filter fun a => a.merchantId == some merchantId
  profiles : (w.profiles.filter fun c => c.merchantId == some merchantId) =
    u.profiles.filter fun c => c.merchantId == some merchantId
  apiKeys : (w.apiKeys.filter fun k => k.merchantId == merchantId) =
    u.apiKeys.filter fun k => k.merchantId == merchantId
  endpoints : (w.endpoints.filter fun e => e.merchantId == merchantId) =
    u.endpoints.filter fun e => e.merchantId == merchantId
  users : (w.core.users.filter fun a => u.owns merchantId a.id) =
    u.core.users.filter fun a => u.owns merchantId a.id
  sellerProfiles : (w.core.sellerProfiles.filter fun p => u.owns merchantId p.userId) =
    u.core.sellerProfiles.filter fun p => u.owns merchantId p.userId
  recorded : (w.core.outboundEvents.filter fun e => e.merchantId == merchantId) =
    u.core.outboundEvents.filter fun e => e.merchantId == merchantId
  merchants : w.merchants = u.merchants
  outboundEvents : w.outboundEvents = u.outboundEvents

theorem SameTenant.of_eq (h : w = u) : SameTenant merchantId u w := by
  rw [h]
  exact ⟨rfl, rfl, rfl, rfl, rfl, rfl, rfl, rfl, rfl, rfl⟩

/-- It owns the same accounts. -/
theorem SameTenant.owns (hs : SameTenant merchantId u w) (id : Uuid) :
    w.owns merchantId id = u.owns merchantId id := by
  have hrow : ∀ v : World, v.owns merchantId id =
      (v.accounts.filter fun a => a.merchantId == some merchantId).any fun a => a.id == id := fun v => by
    rw [World.owns, Table.filter, List.any_filter]
    exact congrArg _ (funext fun a => Bool.and_comm _ _)
  rw [hrow, hrow, hs.accounts]

theorem SameTenant.trans {v : World} (huv : SameTenant merchantId u v) (hvw : SameTenant merchantId v w) :
    SameTenant merchantId u w where
  transactions := hvw.transactions.trans huv.transactions
  accounts := hvw.accounts.trans huv.accounts
  profiles := hvw.profiles.trans huv.profiles
  apiKeys := hvw.apiKeys.trans huv.apiKeys
  endpoints := hvw.endpoints.trans huv.endpoints
  users := by
    have hvw' := hvw.users
    simp only [huv.owns] at hvw'
    exact hvw'.trans huv.users
  sellerProfiles := by
    have hvw' := hvw.sellerProfiles
    simp only [huv.owns] at hvw'
    exact hvw'.trans huv.sellerProfiles
  recorded := hvw.recorded.trans huv.recorded
  merchants := hvw.merchants.trans huv.merchants
  outboundEvents := hvw.outboundEvents.trans huv.outboundEvents

/-- An account of another merchant is not the merchant's. -/
theorem Confined.not_owns {other id : Uuid} (hc : Confined merchantId u w) (hne : other ≠ merchantId)
    (ho : u.owns other id = true) : (!w.owns merchantId id) = true := by
  obtain ⟨a, ha, hid, hother⟩ := owns_iff.mp ho
  have hkept : a ∈ w.accounts.filter fun a => a.merchantId != some merchantId := by
    rw [hc.accounts]
    exact Table.mem_filter.mpr ⟨ha, by simp [hother, hne]⟩
  refine Bool.not_eq_true' _ ▸ Bool.eq_false_iff.mpr fun hown => ?_
  obtain ⟨a', ha', hid', hmerchant⟩ := owns_iff.mp hown
  obtain rfl : a = a' := Table.eq_of_clash (Table.mem_filter.mp hkept).1 ha' (by
    simp [Constrained.clash, hid, hid'])
  exact hne (Option.some.inj (hother.symm.trans hmerchant))

/-- The other merchants have what they had. -/
theorem Confined.others {other : Uuid} (hc : Confined merchantId u w) (hne : other ≠ merchantId) :
    SameTenant other u w where
  transactions := Table.filter_narrow hc.core.transactions fun t ht => by
    rw [beq_iff_eq.mp ht]
    exact bne_iff_ne.mpr fun heq => hne (Option.some.inj heq)
  accounts := Table.filter_narrow hc.accounts fun a ha => by
    rw [beq_iff_eq.mp ha]
    exact bne_iff_ne.mpr fun heq => hne (Option.some.inj heq)
  profiles := Table.filter_narrow hc.profiles fun c hcol => by
    rw [beq_iff_eq.mp hcol]
    exact bne_iff_ne.mpr fun heq => hne (Option.some.inj heq)
  apiKeys := Table.filter_narrow hc.apiKeys fun k hk => by
    rw [beq_iff_eq.mp hk]
    exact bne_iff_ne.mpr hne
  endpoints := Table.filter_narrow hc.endpoints fun e he => by
    rw [beq_iff_eq.mp he]
    exact bne_iff_ne.mpr hne
  users := Table.filter_narrow hc.core.users fun _ ho => hc.not_owns hne ho
  sellerProfiles := Table.filter_narrow hc.core.sellerProfiles fun _ ho => hc.not_owns hne ho
  recorded := by
    obtain ⟨l, hl, hmerchant⟩ := hc.core.outboundEvents
    have hnone : (l.filter fun e => e.merchantId == other) = [] :=
      List.filter_eq_nil_iff.mpr fun e he => by
        rw [hmerchant e he, beq_iff_eq]
        exact fun heq => hne heq.symm
    rw [hl, List.filter_append, hnone, List.append_nil]
  merchants := hc.merchants
  outboundEvents := hc.outboundEvents

/-- The header presents no key of the merchant. -/
def presentsNone (env : Env) (merchantId : Uuid) (header : Option String) (w : World) : Bool :=
  w.apiKeys.rows.all fun k => k.merchantId != merchantId ||
    !(presented header).any fun key => k.keyHash == env.hashApiKey key

/-- Only requests take steps, and none of them with a key of the merchant. -/
def foreign (env : Env) (merchantId : Uuid) : Policy (service env) := fun x l =>
  match l with
  | .perform i _ =>
      match x.procs[i]? with
      | some ⟨.request header _, _, _⟩ => presentsNone env merchantId header x.world
      | _ => false
  | .drift _ => false
  | _ => true

/-- A key the request could use is none of the merchant. -/
theorem Usable.foreign {v : World} {k : MerchantApiKey} {m : Merchant} (hu : Usable env does header v k m)
    (hl : Lasts v w) (hnone : presentsNone env merchantId header w = true) : merchantId ≠ k.merchantId := by
  rintro rfl
  obtain ⟨key, hkey, hhash⟩ := hu.presented
  obtain ⟨k', hk', hsame⟩ := hl.apiKeys k hu.stored
  have hrow := List.all_eq_true.mp hnone k' hk'
  simp [hsame.merchantId, hkey, hsame.keyHash, hhash] at hrow

/-- **Merchants are apart,** in every run: while requests with keys of others take their steps, in any
order, a merchant's transactions, accounts, profiles, keys and endpoint, its sellers' role flags and payout
destinations, and its events stay as they are. -/
theorem isolated_run (hx : Reaches Guard.free (⟨World.initial, []⟩ : Config (service env)) x)
    (hxy : Follows (foreign env merchantId) x y) : SameTenant merchantId x.world y.world := by
  refine hxy.invariant (I := fun z => SameTenant merchantId x.world z.world) (.of_eq rfl) ?_
  intro u v l hreach ih hP hnext
  refine ih.trans ?_
  rcases Config.Step.world_cases (Config.next_step hnext) with
    heq | ⟨i, choice, p, op, kont, a, rfl, hp, -⟩ | ⟨m, rfl, -⟩
  · exact .of_eq heq
  · obtain ⟨ls, hls⟩ := Reaches.labels (hx.trans hreach)
    simp only [foreign, hp] at hP
    split at hP
    · rename_i hcall
      cases hcall
      rcases confined_run hls hp rfl hnext with hsame | ⟨w, k, m, husable, hconfined⟩
      · exact .of_eq hsame
      · have hlasts := (known_run hls hp).lasts w husable.looked_at
        exact hconfined.others (husable.foreign hlasts hP)
    · cases hP
  · cases hP

set_option maxRecDepth 20000 in
/-- The shop, while its rival opens a seller. -/
theorem isolated_hired : ∃ x y : Config (service Demo.settings),
    x.world.accounts.rows = [] ∧ y.world.accounts.rows.length = 1 ∧ SameTenant Demo.shop x.world y.world := by
  have hrun : ((Config.run Guard.free (Demo.opened 0 Demo.shop 0 ++ Demo.opened 1 Demo.rival 1)
      (⟨World.initial, []⟩ : Config (service Demo.settings))).bind fun x =>
        (x.follow (foreign Demo.settings Demo.shop) (Demo.hired 2 1)).map fun y =>
          decide (x.world.accounts.rows = [] ∧ y.world.accounts.rows.length = 1)) = some true := by
    decide +kernel
  obtain ⟨x, hx, hrun⟩ := Option.bind_eq_some_iff.mp hrun
  obtain ⟨y, hy, htest⟩ := Option.map_eq_some_iff.mp hrun
  obtain ⟨hnone, hone⟩ := of_decide_eq_true htest
  exact ⟨x, y, hnone, hone, isolated_run (reaches_of_run hx) (follows_of_follow hy)⟩

end Meduman.Merchants
