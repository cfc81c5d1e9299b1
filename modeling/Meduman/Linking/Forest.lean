import Mathlib.Logic.Relation
import Meduman.Linking.Claims

/-!
# Who is absorbed into whom

A merge leaves a tombstone that names its target. An identity changes its owner with every merge, and a
call goes on with the owner it read.

* `accounts_change` : what an operation does to the users and the identities
* `Born` : the account was minted for a chat, or signed up on the web
* `upstream` : web accounts mint; who types a code belongs to a chat-born account, and still does when it
  is merged
* `Forest`, `forest_step` : then chat-born accounts are absorbed, into web accounts
* **`absorbed_once`** : each at most once, and no target is a tombstone
* `web_absorbed` : otherwise a web account is absorbed
-/

set_option autoImplicit false

namespace Meduman.Linking

open Effect Chat

variable {op : Op} {o : Fate Supply} {u w : World} {a : Except Err op.Ans} {id : Uuid}

/-! ## What an operation does to the accounts -/

/-- **An operation leaves the users and identities alone,** mirrors a minted user, or merges two. -/
theorem accounts_change (h : backend.exec op o u = some (a, w)) :
    (w.users = u.users ∧ w.chatIdentities = u.chatIdentities) ∨
    (∃ d id, op = .identityCreate d ∧
      (w.users = u.users ∧ (∃ v ∈ u.users, v.id = d.authUserId) ∨
        (∀ v ∈ u.users, v.id ≠ d.authUserId) ∧ w.users.rows = u.users.rows ++ [chatUser d]) ∧
      w.chatIdentities.rows = u.chatIdentities.rows ++ [chatIdentity d id]) ∨
    ∃ source target opts, op = .mergeAccounts source target opts ∧ Merged source target u w := by
  cases exec_changes h with
  | identify owner write =>
      refine .inr (.inl ⟨_, _, rfl, ?_, Table.rows_create write⟩)
      exact owner.imp_right fun hnew => ⟨hnew.1, Table.rows_create hnew.2⟩
  | merge merged => exact .inr (.inr ⟨_, _, _, rfl, merge_merged merged⟩)
  | _ => exact .inl ⟨rfl, rfl⟩

/-- An operation leaves the disputes and the evidence alone, or merges two users. -/
theorem disputes_change (h : backend.exec op o u = some (a, w)) :
    (w.disputes = u.disputes ∧ w.evidence = u.evidence) ∨
    ∃ source target opts, op = .mergeAccounts source target opts ∧ Merged source target u w := by
  cases exec_changes h with
  | merge merged => exact .inr ⟨_, _, _, rfl, merge_merged merged⟩
  | _ => exact .inl ⟨rfl, rfl⟩

/-- An operation leaves the auth users alone, or mints one. -/
theorem authUsers_change (h : backend.exec op o u = some (a, w)) : w.authUsers = u.authUsers ∨
    ∃ email id, op = .createUser email ∧
      w.authUsers.rows = u.authUsers.rows ++ [⟨id, email, true⟩] := by
  cases exec_changes h with
  | mint write => exact .inr ⟨_, _, rfl, Table.rows_create write⟩
  | merge merged => exact .inl (merge_merged merged).authUsers
  | _ => exact .inl rfl

/-- A minted auth user is new. -/
theorem createUser_ok {email : String} (h : backend.exec (.createUser email) o u = some (.ok id, w)) :
    (∀ b ∈ u.authUsers, b.id ≠ id) ∧ (∀ v ∈ u.users, v.id ≠ id) ∧
      w.authUsers.rows = u.authUsers.rows ++ [⟨id, email, true⟩] := by
  obtain ⟨s, hfits, heff⟩ := Backend.exec_ok h
  simp only [backend, effect] at heff
  split at heff
  · cases heff
  · rename_i authUsers hcreate
    cases heff
    simp only [backend, Op.fits, Bool.and_eq_true] at hfits
    exact ⟨fun b hb => bne_iff_ne.mp (List.all_eq_true.mp hfits.1 b hb),
      fun v hv => bne_iff_ne.mp (List.all_eq_true.mp hfits.2 v hv), Table.rows_create hcreate⟩

/-- A move leaves the identities alone, and the users but for a sign-up of a new auth user. -/
theorem drift_accounts {m : Move} (h : drift m u = some w) :
    w.chatIdentities = u.chatIdentities ∧ (w.users = u.users ∧ w.authUsers = u.authUsers ∨
      ∃ id email, (∀ b ∈ u.authUsers, b.id ≠ id) ∧ w.users.rows = u.users.rows ++ [webUser id email] ∧
        w.authUsers.rows = u.authUsers.rows ++ [⟨id, email, false⟩]) := by
  cases m with
  | signUp id email =>
      simp only [drift] at h
      obtain ⟨authUsers, hauth, h⟩ := Option.bind_eq_some_iff.mp h
      obtain ⟨users, husers, h⟩ := Option.bind_eq_some_iff.mp h
      rw [← Option.some.inj h]
      refine ⟨rfl, .inr ⟨id, email, fun b hb hid => ?_, Table.rows_create husers,
        Table.rows_create hauth⟩⟩
      have hclash := Table.create_no_clash hauth hb
      simp [Constrained.clash, hid] at hclash
  | _ => rw [← Option.some.inj h]; exact ⟨rfl, .inl ⟨rfl, rfl⟩⟩

/-! ## Who was born where -/

/-- The account was minted for a chat, or signed up on the web. -/
def Born (w : World) (chat : Bool) (id : Uuid) : Prop := ∃ a ∈ w.authUsers, a.id = id ∧ a.chat = chat

theorem Born.ne {b : Uuid} (ha : Born w true id) (hb : Born w false b) : id ≠ b := by
  rintro rfl
  obtain ⟨x, hx, hid, hchat⟩ := ha
  obtain ⟨y, hy, hid', hweb⟩ := hb
  have heq : x = y := Table.eq_of_clash hx hy (by simp [Constrained.clash, hid, hid'])
  rw [← heq, hchat] at hweb
  cases hweb

instance (w : World) (chat : Bool) (id : Uuid) : Decidable (Born w chat id) :=
  inferInstanceAs (Decidable (∃ a ∈ w.authUsers.rows, a.id = id ∧ a.chat = chat))

variable {env : Env}

/-- Web accounts mint. A code is typed in a chat that belongs to a chat-born account, or to the one that
minted it. A merge is made while the account to be absorbed still owns a chat. -/
def upstream (env : Env) : Policy (service env) := fun x l =>
  match l with
  | .arrive (.mint targetUserId) => decide (Born x.world false targetUserId)
  | .perform i _ => match x.pending i with
      | some (p, ⟨.linkRequestFindByHash codeHash, _⟩) =>
          (World.linkRequests x.world).rows.all fun r => r.codeHash != codeHash ||
            r.status != .pending || (identityOf p.hist).all fun identity =>
              decide (Born x.world true identity.userId) || identity.userId == r.targetUserId
      | some (_, ⟨.mergeAccounts source _ _, _⟩) =>
          (World.chatIdentities x.world).rows.any fun identity => identity.userId == source
      | _ => true
  | _ => true

variable {x y : Config (service env)} {l : Label (service env)} {p q : Process (service env)}
  {i j : Nat} {chat : Bool}

theorem born_step (hs : x.Step y l) (hb : Born x.world chat id) : Born y.world chat id := by
  obtain ⟨b, hb, hid⟩ := hb
  rcases hs.world_cases with hw | ⟨i, o, p, op, k, a, -, -, -, he, -⟩ | ⟨m, -, hm⟩
  · exact ⟨b, hw ▸ hb, hid⟩
  · replace he : backend.exec op o x.world = some (a, y.world) := he
    rcases authUsers_change he with hsame | ⟨email, id', -, hrows⟩
    · exact ⟨b, hsame ▸ hb, hid⟩
    · exact ⟨b, Table.mem_def.mpr (hrows ▸ List.mem_append_left _ hb), hid⟩
  · rcases (drift_accounts hm).2 with ⟨-, hsame⟩ | ⟨id', email, -, -, hrows⟩
    · exact ⟨b, hsame ▸ hb, hid⟩
    · exact ⟨b, Table.mem_def.mpr (hrows ▸ List.mem_append_left _ hb), hid⟩

/-! ## What a call knows of the accounts -/

/-- The request is a web account's, and the account to be absorbed chat-born. -/
def Phase.Upstream (w : World) (identity : Option ChatIdentity) : Phase → Prop
  | .typed r | .checked r => Born w false r.targetUserId ∧
      ∀ i, identity = some i → Born w true i.userId ∨ i.userId = r.targetUserId
  | .review r | .promoted r => Born w false r.targetUserId ∧
      ∀ source, r.sourceUserId = some source → Born w true source
  | _ => True

variable {e : Event Op.Ans Err} {h : Hist} {ph : Phase} {identity : Option ChatIdentity}

/-- What stays known when more accounts are born. -/
theorem Phase.Upstream.mono (hborn : ∀ chat id, Born u chat id → Born w chat id)
    (hu : ph.Upstream u identity) : ph.Upstream w identity := by
  cases ph
  case typed r => exact ⟨hborn _ _ hu.1, fun i hi => (hu.2 i hi).imp_left (hborn _ _)⟩
  case checked r => exact ⟨hborn _ _ hu.1, fun i hi => (hu.2 i hi).imp_left (hborn _ _)⟩
  case review r => exact ⟨hborn _ _ hu.1, fun source hsource => hborn _ _ (hu.2 source hsource)⟩
  case promoted r => exact ⟨hborn _ _ hu.1, fun source hsource => hborn _ _ (hu.2 source hsource)⟩
  all_goals trivial

/-- What a call may be told by the request it reads. -/
def Tells (w : World) (identity : Option ChatIdentity) (e : Event Op.Ans Err) : Prop :=
  ∀ r, readLive e = some r → Born w false r.targetUserId ∧
    ((∃ c, e.op = .linkRequestFindByHash c) ∧ (∀ i, identity = some i →
        Born w true i.userId ∨ i.userId = r.targetUserId) ∨
      (∃ id, e.op = .linkRequestFindUnique id) ∧
        ∀ source, r.sourceUserId = some source → Born w true source)

theorem Phase.Upstream.step (hu : ph.Upstream w identity) (hread : Tells w identity e) :
    (ph.step e).Upstream w identity := by
  fun_cases Phase.step ph e
  case case4 codeHash r hpending =>
    obtain ⟨htarget, ⟨-, hidentity⟩ | ⟨⟨id, hop⟩, -⟩⟩ := hread r (by simp [readLive, hpending])
    · exact ⟨htarget, hidentity⟩
    · cases hop
  case case8 id r hreview =>
    obtain ⟨htarget, ⟨⟨c, hop⟩, -⟩ | ⟨-, hsource⟩⟩ := hread r (by simp [readLive, hreview])
    · cases hop
    · exact ⟨htarget, hsource⟩
  all_goals first
    | exact hu
    | trivial

/-- A call that works on a request looks no identity up. -/
theorem phase_of_identityRead (hJ : Promises h e.op) (hread : identityRead e ≠ none) :
    phase (e :: h) = .idle := by
  obtain ⟨op, a⟩ := e
  rw [phase_cons]
  cases op with
  | chatIdentityFindByAccount platform platformUserId =>
      replace hJ : phase h = .idle := hJ
      rw [hJ]
      rfl
  | identityCreate d =>
      rw [hJ.1]
      rfl
  | _ => exact absurd rfl hread

/-- **What a call knows of the accounts,** it knows since it read the request. -/
theorem upstream_cons (hJ : Promises h e.op) (hu : (phase h).Upstream w (identityOf h))
    (hread : Tells w (identityOf h) e) : (phase (e :: h)).Upstream w (identityOf (e :: h)) := by
  by_cases hnone : identityRead e = none
  · rw [identityOf_cons, hnone, Option.none_or]
    exact hu.step hread
  · rw [phase_of_identityRead hJ hnone]
    trivial

/-! ## The invariant -/

/-- Codes are made for web accounts, and what is absorbed was born in a chat and owns none any more. -/
structure Forest (x : Config (service env)) : Prop where
  mints : ∀ p ∈ x.procs, ∀ t, p.call = .mint t → Born x.world false t
  targets : ∀ r ∈ World.linkRequests x.world, Born x.world false r.targetUserId
  sources : ∀ r ∈ World.linkRequests x.world, r.status = .pendingReview →
    ∀ source, r.sourceUserId = some source → Born x.world true source
  calls : ∀ p ∈ x.procs, (phase p.hist).Upstream x.world (identityOf p.hist)
  minted : ∀ p ∈ x.procs, ∀ id, mintedUser p.hist = some id →
    Born x.world true id ∧ ∀ v ∈ World.users x.world, v.id ≠ id
  alone : ∀ {i j : Nat} {p q : Process (service env)} {id : Uuid}, x.procs[i]? = some p →
    x.procs[j]? = some q → mintedUser p.hist = some id → mintedUser q.hist = some id → i = j
  absorbed : ∀ v ∈ World.users x.world, ∀ t, v.mergedIntoUserId = some t →
    Born x.world true v.id ∧ Born x.world false t ∧ ∃ v' ∈ World.users x.world, v'.id = t
  owners : ∀ identity ∈ World.chatIdentities x.world, ∀ v ∈ World.users x.world,
    v.id = identity.userId → v.mergedIntoUserId = none

theorem forest_initial : Forest (⟨World.initial, []⟩ : Config (service env)) where
  mints _ hp := absurd hp List.not_mem_nil
  targets _ hr := absurd hr (Table.not_mem_empty _)
  sources _ hr := absurd hr (Table.not_mem_empty _)
  calls _ hp := absurd hp List.not_mem_nil
  minted _ hp := absurd hp List.not_mem_nil
  alone h := by simp at h
  absorbed _ hv := absurd hv (Table.not_mem_empty _)
  owners _ hi := absurd hi (Table.not_mem_empty _)

/-- **Who is about to be merged:** a chat-born account, into a web account. -/
theorem merging_born (hx : Reachable env x) (hI : Forest x) (hp : p ∈ x.procs)
    {source target : Uuid} {opts : MergeOptions} {k : Except Err MergeReport → Program Reply}
    (hk : p.prog = some (.call (.mergeAccounts source target opts) k)) :
    Born x.world true source ∧ Born x.world false target := by
  have hknows := hI.calls p hp
  obtain ⟨r, rfl, ⟨hphase, ⟨i, hid, rfl⟩, hne⟩ | ⟨hphase, hsource⟩⟩ := promises_of_reaches hx hp hk
  · rw [hphase] at hknows
    exact ⟨(hknows.2 i hid).resolve_right hne, hknows.1⟩
  · rw [hphase] at hknows
    exact ⟨hknows.2 source hsource, hknows.1⟩

/-- **What a merge does to a user's row.** -/
theorem merged_user {source target : Uuid} (hm : Merged source target u w) {v : User}
    (hv : v ∈ w.users) : ∃ v₀ ∈ u.users, v.id = v₀.id ∧
      (v₀.id = source ∧ v.mergedIntoUserId = some target ∧ v.mergedAt = some u.clock ∨
        v₀.id ≠ source ∧ v.mergedIntoUserId = v₀.mergedIntoUserId ∧ v.mergedAt = v₀.mergedAt) := by
  obtain ⟨sourceUser, -, targetUser, -, hs, ht, hrows⟩ := hm.users
  obtain ⟨v₀, hv₀, rfl⟩ := List.mem_map.mp (hrows ▸ Table.mem_def.mp hv)
  refine ⟨v₀, hv₀, ?_⟩
  by_cases hsource : v₀.id = source
  · simp [User.bury, hsource]
  · simp [User.bury, hsource]

/-- A user's row stays, with its tombstone, unless it is the one to be absorbed. -/
theorem merged_user_of {source target : Uuid} (hm : Merged source target u w) {v₀ : User}
    (hv₀ : v₀ ∈ u.users) : ∃ v ∈ w.users, v.id = v₀.id ∧ (v₀.id ≠ source →
      v.mergedIntoUserId = v₀.mergedIntoUserId ∧ v.mergedAt = v₀.mergedAt) := by
  obtain ⟨sourceUser, -, targetUser, -, hs, ht, hrows⟩ := hm.users
  refine ⟨_, Table.mem_def.mpr (hrows ▸ List.mem_map_of_mem hv₀), ?_⟩
  by_cases hsource : v₀.id = source
  · simp [User.bury, hsource]
  · simp [User.bury, hsource]

/-! ## What a step does to the accounts -/

/-- **Where a user's row comes from:** it was there, absorbed now or as before; or it is new, of an auth
user just mirrored or nobody knew. -/
theorem users_origin (hs : x.Step y l) {v : User} (hv : v ∈ World.users y.world) :
    (∃ v₀ ∈ World.users x.world, v.id = v₀.id ∧
      (v.mergedIntoUserId = v₀.mergedIntoUserId ∨ ∃ i o p source target opts k,
        l = .perform i o ∧ x.procs[i]? = some p ∧
        p.prog = some (.call (.mergeAccounts source target opts) k) ∧
        Merged source target x.world y.world ∧ v₀.id = source ∧
        v.mergedIntoUserId = some target)) ∨
    v.mergedIntoUserId = none ∧ ((∃ i o p d k, l = .perform i o ∧ x.procs[i]? = some p ∧
        p.prog = some (.call (.identityCreate d) k) ∧ v.id = d.authUserId) ∨
      (∃ m, l = .drift m) ∧ ∀ chat, ¬ Born x.world chat v.id) := by
  rcases hs.world_cases with hw | ⟨i, o, p, op, k, a, rfl, hp, hk, he, -⟩ | ⟨m, rfl, hm⟩
  · exact .inl ⟨v, hw ▸ hv, rfl, .inl rfl⟩
  · replace he : backend.exec op o x.world = some (a, y.world) := he
    rcases accounts_change he with ⟨husers, -⟩ | ⟨d, id, rfl, ⟨husers, -⟩ | ⟨-, hrows⟩, -⟩ |
      ⟨source, target, opts, rfl, hmerged⟩
    · exact .inl ⟨v, husers ▸ hv, rfl, .inl rfl⟩
    · exact .inl ⟨v, husers ▸ hv, rfl, .inl rfl⟩
    · rcases List.mem_append.mp (hrows ▸ Table.mem_def.mp hv) with hv | hv
      · exact .inl ⟨v, hv, rfl, .inl rfl⟩
      · rw [List.mem_singleton.mp hv]
        exact .inr ⟨rfl, .inl ⟨i, o, p, d, k, rfl, hp, hk, rfl⟩⟩
    · obtain ⟨v₀, hv₀, hid, ⟨hsource, hinto, -⟩ | ⟨-, hinto, -⟩⟩ := merged_user hmerged hv
      · exact .inl ⟨v₀, hv₀, hid,
          .inr ⟨i, o, p, source, target, opts, k, rfl, hp, hk, hmerged, hsource, hinto⟩⟩
      · exact .inl ⟨v₀, hv₀, hid, .inl hinto⟩
  · rcases (drift_accounts hm).2 with ⟨husers, -⟩ | ⟨id, email, hnew, hrows, -⟩
    · exact .inl ⟨v, husers ▸ hv, rfl, .inl rfl⟩
    · rcases List.mem_append.mp (hrows ▸ Table.mem_def.mp hv) with hv | hv
      · exact .inl ⟨v, hv, rfl, .inl rfl⟩
      · rw [List.mem_singleton.mp hv]
        refine .inr ⟨rfl, .inr ⟨⟨m, rfl⟩, fun chat hborn => ?_⟩⟩
        obtain ⟨b, hb, hid, -⟩ := hborn
        exact hnew b hb hid

/-- A user's row stays. -/
theorem users_kept (hs : x.Step y l) {v₀ : User} (hv₀ : v₀ ∈ World.users x.world) :
    ∃ v ∈ World.users y.world, v.id = v₀.id ∧
      (v.mergedIntoUserId = v₀.mergedIntoUserId ∧ v.mergedAt = v₀.mergedAt ∨
        ∃ i o p target opts k, l = .perform i o ∧ x.procs[i]? = some p ∧
          p.prog = some (.call (.mergeAccounts v₀.id target opts) k)) := by
  rcases hs.world_cases with hw | ⟨i, o, p, op, k, a, rfl, hp, hk, he, -⟩ | ⟨m, -, hm⟩
  · exact ⟨v₀, hw ▸ hv₀, rfl, .inl ⟨rfl, rfl⟩⟩
  · replace he : backend.exec op o x.world = some (a, y.world) := he
    rcases accounts_change he with ⟨husers, -⟩ | ⟨d, id, rfl, ⟨husers, -⟩ | ⟨-, hrows⟩, -⟩ |
      ⟨source, target, opts, rfl, hmerged⟩
    · exact ⟨v₀, husers ▸ hv₀, rfl, .inl ⟨rfl, rfl⟩⟩
    · exact ⟨v₀, husers ▸ hv₀, rfl, .inl ⟨rfl, rfl⟩⟩
    · exact ⟨v₀, Table.mem_def.mpr (hrows ▸ List.mem_append_left _ hv₀), rfl, .inl ⟨rfl, rfl⟩⟩
    · obtain ⟨v, hv, hid, hsame⟩ := merged_user_of hmerged hv₀
      refine ⟨v, hv, hid, ?_⟩
      by_cases hsource : v₀.id = source
      · subst hsource
        exact .inr ⟨i, o, p, target, opts, k, rfl, hp, hk⟩
      · exact .inl (hsame hsource)
  · rcases (drift_accounts hm).2 with ⟨husers, -⟩ | ⟨id, email, -, hrows, -⟩
    · exact ⟨v₀, husers ▸ hv₀, rfl, .inl ⟨rfl, rfl⟩⟩
    · exact ⟨v₀, Table.mem_def.mpr (hrows ▸ List.mem_append_left _ hv₀), rfl, .inl ⟨rfl, rfl⟩⟩

/-! ## The invariant is kept -/

theorem mints_step (hI : Forest x) (hP : upstream env x l = true) (hs : x.Step y l) :
    ∀ q ∈ y.procs, ∀ t, q.call = .mint t → Born y.world false t := by
  intro q hq t hcall
  obtain ⟨j, hj⟩ := List.getElem?_of_mem hq
  have hold (p : Process (service env)) (hp : p ∈ x.procs) (hsame : q.call = p.call) :
      Born y.world false t := born_step hs (hI.mints p hp t (hsame ▸ hcall))
  cases hs with
  | arrive hadm hw hprocs =>
      rw [hprocs] at hq
      rcases List.mem_append.mp hq with hq | hq
      · exact hold q hq rfl
      · rw [List.mem_singleton] at hq
        subst hq
        cases hcall
        rw [hw]
        exact of_decide_eq_true hP
  | perform hp hk he hprocs =>
      rw [hprocs] at hj
      rcases getElem?_set_cases hp hj with ⟨rfl, rfl⟩ | ⟨-, hj⟩
      · exact hold _ (List.mem_of_getElem? hp) rfl
      · exact hold q (List.mem_of_getElem? hj) rfl
  | crash hp hw hprocs =>
      rw [hprocs] at hj
      rcases getElem?_set_cases hp hj with ⟨rfl, rfl⟩ | ⟨-, hj⟩
      · exact hold _ (List.mem_of_getElem? hp) rfl
      · exact hold q (List.mem_of_getElem? hj) rfl
  | drift hm hprocs => exact hold q (hprocs ▸ hq) rfl

theorem apply_targetUserId (d : LinkRequestUpdate) (r : ChatLinkRequest) :
    (d.apply r).targetUserId = r.targetUserId := by
  cases d <;> rfl

/-- **Every request was made for a web account.** -/
theorem targets_step (hx : Reachable env x) (hI : Forest x) (hs : x.Step y l) :
    ∀ r ∈ World.linkRequests y.world, Born y.world false r.targetUserId := by
  intro r hr
  have hold (r₀ : ChatLinkRequest) (hr₀ : r₀ ∈ World.linkRequests x.world) :
      Born y.world false r₀.targetUserId := born_step hs (hI.targets r₀ hr₀)
  rcases hs.world_cases with hw | ⟨i, o, p, op, k, a, rfl, hp, hk, he, -⟩ | ⟨m, -, hm⟩
  · exact hold r (hw ▸ hr)
  · replace he : backend.exec op o x.world = some (a, y.world) := he
    rcases row_origin he hr with ⟨r₀, hr₀, n, rfl⟩ | ⟨r₀, hr₀, t, rfl⟩ | ⟨d, s, rfl, -, -, rfl⟩ |
      ⟨r₀, hr₀, d, rfl, -, rfl⟩
    · exact hold r₀ hr₀
    · exact hold r₀ hr₀
    · have hmem := List.mem_of_getElem? hp
      have hdoes : p.call = .mint d.targetUserId := does_of_reaches hx hmem hk
      exact born_step hs (hI.mints p hmem _ hdoes)
    · rw [apply_targetUserId]
      exact hold r₀ hr₀
  · exact hold r (drift_requests hm ▸ hr)

/-- **A request under review names a chat-born account.** -/
theorem sources_step (hx : Reachable env x) (hI : Forest x) (hs : x.Step y l) :
    ∀ r ∈ World.linkRequests y.world, r.status = .pendingReview →
      ∀ source, r.sourceUserId = some source → Born y.world true source := by
  intro r hr hreview source hsource
  have hold {r₀ : ChatLinkRequest} (hr₀ : r₀ ∈ World.linkRequests x.world)
      (hreview : r₀.status = .pendingReview) (hsource : r₀.sourceUserId = some source) :
      Born y.world true source := born_step hs (hI.sources r₀ hr₀ hreview source hsource)
  rcases hs.world_cases with hw | ⟨i, o, p, op, k, a, rfl, hp, hk, he, -⟩ | ⟨m, -, hm⟩
  · exact hold (hw ▸ hr) hreview hsource
  · replace he : backend.exec op o x.world = some (a, y.world) := he
    rcases row_origin he hr with ⟨r₀, hr₀, n, rfl⟩ | ⟨r₀, -, t, rfl⟩ | ⟨d, s, -, -, -, rfl⟩ |
      ⟨r₀, hr₀, d, rfl, hd, rfl⟩
    · exact hold hr₀ hreview hsource
    · cases hreview
    · cases hreview
    · have hmem := List.mem_of_getElem? hp
      have hknows := hI.calls p hmem
      have hJ := promises_of_reaches hx hmem hk
      cases d with
      | countAttempt => exact absurd rfl hd
      | consumeAs data now =>
          obtain ⟨r₁, i, -, ⟨hphase, -⟩ | ⟨-, hcompleted⟩, hne, hid, hdata, -⟩ := hJ
          · rw [hphase] at hknows
            have hsame : i.userId = source := hdata.symm.trans (Option.some.inj hsource)
            exact hsame ▸ born_step hs ((hknows.2 i hid).resolve_right (hne hreview))
          · exact absurd (hreview.symm.trans hcompleted) (by decide)
      | promote => cases hreview
      | reject by' now => cases hreview
      | complete by' now => cases hreview
  · exact hold (drift_requests hm ▸ hr) hreview hsource

theorem calls_step (hx : Reachable env x) (hI : Forest x) (hP : upstream env x l = true)
    (hs : x.Step y l) :
    ∀ q ∈ y.procs, (phase q.hist).Upstream y.world (identityOf q.hist) := by
  intro q hq
  have hborn : ∀ chat id, Born x.world chat id → Born y.world chat id := fun _ _ => born_step hs
  obtain ⟨j, hq⟩ := List.getElem?_of_mem hq
  rcases process_cases hs hq with ⟨p, hp, -, hhist, -⟩ | hnil |
    ⟨o, p, op, k, a, rfl, hp, hk, he, -, hhist⟩
  · rw [hhist]
    exact (hI.calls p (List.mem_of_getElem? hp)).mono hborn
  · rw [hnil]
    trivial
  · have hmem := List.mem_of_getElem? hp
    rw [hhist]
    refine upstream_cons (promises_of_reaches hx hmem hk) ((hI.calls p hmem).mono hborn) ?_
    intro r hread
    obtain ⟨hr, -, ⟨rfl, hpending⟩ | ⟨rfl, hreview⟩⟩ := readLive_ok he hread
    · refine ⟨hborn _ _ (hI.targets r hr), .inl ⟨⟨_, rfl⟩, fun i hi => ?_⟩⟩
      simp only [upstream, Config.pending_eq hp hk] at hP
      have hrow := List.all_eq_true.mp hP r hr
      simp only [hpending, bne_self_eq_false, Bool.false_or, hi, Option.all_some, Bool.or_eq_true,
        decide_eq_true_eq, beq_iff_eq] at hrow
      exact hrow.imp_left (hborn _ _)
    · exact ⟨hborn _ _ (hI.targets r hr), .inr ⟨⟨_, rfl⟩, fun source hsource =>
        hborn _ _ (hI.sources r hr hreview source hsource)⟩⟩

/-! ## Minted auth users -/

theorem mintedUser_cons : mintedUser (e :: h) = (mintsUser e).getD (mintedUser h) := task_cons e h

/-- A call that has minted an auth user had done so, or does so now; and has not mirrored it. -/
theorem mintedUser_step (hm : mintedUser (e :: h) = some id) :
    (mintedUser h = some id ∧ ∀ d, e.op ≠ .identityCreate d) ∨
      ∃ email, e = ⟨.createUser email, .ok id⟩ := by
  rw [mintedUser_cons] at hm
  obtain ⟨op, a⟩ := e
  cases op with
  | createUser email =>
      cases a with
      | error e => exact .inl ⟨hm, fun d => by simp⟩
      | ok id' =>
          cases hm
          exact .inr ⟨email, rfl⟩
  | identityCreate d => cases hm
  | _ => exact .inl ⟨hm, fun d => by simp⟩

/-- Who has minted an auth user, after a step. -/
theorem minted_cases (hs : x.Step y l) (hq : y.procs[j]? = some q)
    (hm : mintedUser q.hist = some id) :
    (∃ p, x.procs[j]? = some p ∧ mintedUser p.hist = some id ∧ ∀ o p d k, l = .perform j o →
      x.procs[j]? = some p → p.prog ≠ some (.call (.identityCreate d) k)) ∨
    ∃ o p email k, l = .perform j o ∧ x.procs[j]? = some p ∧
      p.prog = some (.call (.createUser email) k) ∧
      backend.exec (.createUser email) o x.world = some (.ok id, y.world) := by
  rcases process_cases hs hq with ⟨p, hp, -, hhist, -, hidle⟩ | hnil |
    ⟨o, p, op, k, a, rfl, hp, hk, he, -, hhist⟩
  · exact .inl ⟨p, hp, hhist ▸ hm, fun o _ _ _ hl => absurd hl (hidle o)⟩
  · rw [hnil] at hm
    cases hm
  · rw [hhist] at hm
    rcases mintedUser_step hm with ⟨hm, hno⟩ | ⟨email, heq⟩
    · refine .inl ⟨p, hp, hm, fun o' p' d k' _ hp' hk' => ?_⟩
      cases hp.symm.trans hp'
      cases hk.symm.trans hk'
      exact hno d rfl
    · cases heq
      exact .inr ⟨o, p, email, k, rfl, hp, hk, he⟩

/-- A minted auth user is nobody's yet, and one call's only. -/
structure Unmirrored (x : Config (service env)) : Prop where
  minted : ∀ p ∈ x.procs, ∀ id, mintedUser p.hist = some id →
    Born x.world true id ∧ ∀ v ∈ World.users x.world, v.id ≠ id
  alone : ∀ {i j : Nat} {p q : Process (service env)} {id : Uuid}, x.procs[i]? = some p →
    x.procs[j]? = some q → mintedUser p.hist = some id → mintedUser q.hist = some id → i = j

/-- **A minted auth user is nobody's yet.** -/
theorem unmirrored_step (hx : Reachable env x) (hI : Unmirrored x) (hs : x.Step y l) :
    ∀ q ∈ y.procs, ∀ id, mintedUser q.hist = some id →
      Born y.world true id ∧ ∀ v ∈ World.users y.world, v.id ≠ id := by
  intro q hq id hm
  obtain ⟨j, hq⟩ := List.getElem?_of_mem hq
  rcases minted_cases hs hq hm with ⟨p, hp, hm, hno⟩ | ⟨o, p, email, k, rfl, hp, hk, he⟩
  · obtain ⟨hborn, hnobody⟩ := hI.minted p (List.mem_of_getElem? hp) id hm
    refine ⟨born_step hs hborn, fun v hv hid => ?_⟩
    rcases users_origin hs hv with ⟨v₀, hv₀, hid₀, -⟩ |
      ⟨-, ⟨i, o, p', d, k, rfl, hp', hk, hid'⟩ | ⟨-, hunknown⟩⟩
    · exact hnobody v₀ hv₀ (hid₀.symm.trans hid)
    · have hpromise := promises_of_reaches hx (List.mem_of_getElem? hp') hk
      have hsame : mintedUser p'.hist = some id := by rw [hpromise.2, ← hid', hid]
      cases hI.alone hp hp' hm hsame
      exact hno o p' d k rfl hp' hk
    · exact hunknown true (hid ▸ hborn)
  · obtain ⟨-, hnobody, hrows⟩ := createUser_ok he
    refine ⟨⟨_, Table.mem_def.mpr (hrows ▸ List.mem_append_right _ (List.mem_singleton_self _)),
      rfl, rfl⟩, fun v hv hid => ?_⟩
    rcases users_origin hs hv with ⟨v₀, hv₀, hid₀, -⟩ |
      ⟨-, ⟨i, o', p', d, k', hl, hp', hk', -⟩ | ⟨⟨m, hl⟩, -⟩⟩
    · exact hnobody v₀ hv₀ (hid₀.symm.trans hid)
    · cases hl
      cases hp.symm.trans hp'
      cases hk.symm.trans hk'
    · cases hl

theorem alone_step (hI : Unmirrored x) (hs : x.Step y l) (hp : y.procs[i]? = some p)
    (hq : y.procs[j]? = some q) (hmp : mintedUser p.hist = some id)
    (hmq : mintedUser q.hist = some id) : i = j := by
  have fresh : ∀ {i j : Nat} {o : Fate Supply} {p q : Process (service env)} {email : String},
      x.procs[i]? = some p → backend.exec (.createUser email) o x.world = some (.ok id, y.world) →
      x.procs[j]? = some q → mintedUser q.hist = some id → False := by
    intro i j o p q email hp he hq hmq
    obtain ⟨b, hb, hid, -⟩ := (hI.minted q (List.mem_of_getElem? hq) id hmq).1
    exact (createUser_ok he).1 b hb hid
  rcases minted_cases hs hp hmp with ⟨p', hp', hmp, -⟩ | ⟨o, p', email, k, hl, hp', -, he⟩
  · rcases minted_cases hs hq hmq with ⟨q', hq', hmq, -⟩ | ⟨o, q', email, k, hl, hq', -, he⟩
    · exact hI.alone hp' hq' hmp hmq
    · exact (fresh hq' he hp' hmp).elim
  · rcases minted_cases hs hq hmq with ⟨q', hq', hmq, -⟩ | ⟨o', q', email', k', hl', -⟩
    · exact (fresh hp' he hq' hmq).elim
    · cases hl.symm.trans hl'
      rfl

/-- **In every run** a minted auth user waits for its one mirror. -/
theorem unmirrored_of_reachable (hx : Reachable env x) : Unmirrored x := by
  induction hx with
  | refl => exact ⟨fun _ hp => absurd hp List.not_mem_nil, fun h => by simp at h⟩
  | tail hrun hl ih =>
      obtain ⟨l, hl⟩ := hl
      have hs := Config.next_step hl
      exact ⟨unmirrored_step hrun ih hs, fun hp hq => alone_step ih hs hp hq⟩

/-! ## The forest -/

/-- **Only chat-born accounts are absorbed,** by web accounts. -/
theorem absorbed_step (hx : Reachable env x) (hI : Forest x) (hs : x.Step y l) :
    ∀ v ∈ World.users y.world, ∀ t, v.mergedIntoUserId = some t →
      Born y.world true v.id ∧ Born y.world false t ∧ ∃ v' ∈ World.users y.world, v'.id = t := by
  intro v hv t hinto
  rcases users_origin hs hv with ⟨v₀, hv₀, hid, hsame | ⟨i, o, p, source, target, opts, k, rfl, hp, hk,
    hmerged, rfl, hnow⟩⟩ | ⟨hnone, -⟩
  · obtain ⟨hchat, hweb, v', hv', hid'⟩ := hI.absorbed v₀ hv₀ t (hsame.symm.trans hinto)
    obtain ⟨v'', hv'', hid'', -⟩ := users_kept hs hv'
    rw [hid]
    exact ⟨born_step hs hchat, born_step hs hweb, v'', hv'', hid''.trans hid'⟩
  · cases hnow.symm.trans hinto
    obtain ⟨hchat, hweb⟩ := merging_born hx hI (List.mem_of_getElem? hp) hk
    obtain ⟨sourceUser, -, targetUser, htarget, -, hid', -⟩ := hmerged.users
    obtain ⟨v', hv', hid'', -⟩ := merged_user_of hmerged htarget
    rw [hid]
    exact ⟨born_step hs hchat, born_step hs hweb, v', hv', hid''.trans hid'⟩
  · rw [hnone] at hinto
    cases hinto

/-- A web account is not absorbed. -/
theorem Forest.live (hI : Forest x) {v : User} (hv : v ∈ World.users x.world)
    (hweb : Born x.world false v.id) : v.mergedIntoUserId = none := by
  by_contra hsome
  obtain ⟨t, ht⟩ := Option.ne_none_iff_exists'.mp hsome
  exact (hI.absorbed v hv t ht).1.ne hweb rfl

/-- **Who owns an identity is not absorbed.** -/
theorem owners_step (hx : Reachable env x) (hI : Forest x) (hs : x.Step y l) :
    ∀ identity ∈ World.chatIdentities y.world, ∀ v ∈ World.users y.world,
      v.id = identity.userId → v.mergedIntoUserId = none := by
  intro identity hi v hv hid
  rcases hs.world_cases with hw | ⟨i, o, p, op, k, a, rfl, hp, hk, he, -⟩ | ⟨m, -, hm⟩
  · exact hI.owners identity (hw ▸ hi) v (hw ▸ hv) hid
  · replace he : backend.exec op o x.world = some (a, y.world) := he
    have hmem := List.mem_of_getElem? hp
    rcases accounts_change he with ⟨husers, hidentities⟩ | ⟨d, id, rfl, husers, hidentities⟩ |
      ⟨source, target, opts, rfl, hmerged⟩
    · exact hI.owners identity (hidentities ▸ hi) v (husers ▸ hv) hid
    · have hnobody := (hI.minted p hmem d.authUserId (promises_of_reaches hx hmem hk).2).2
      rcases husers with ⟨-, v', hv', hid'⟩ | ⟨-, hrows⟩
      · exact absurd hid' (hnobody v' hv')
      · rcases List.mem_append.mp (hrows ▸ Table.mem_def.mp hv) with hv | hv
        · rcases List.mem_append.mp (hidentities ▸ Table.mem_def.mp hi) with hi | hi
          · exact hI.owners identity hi v hv hid
          · rw [List.mem_singleton.mp hi] at hid
            exact absurd hid (hnobody v hv)
        · rw [List.mem_singleton.mp hv]
          rfl
    · obtain ⟨hchat, hweb⟩ := merging_born hx hI hmem hk
      obtain ⟨v₀, hv₀, hsame, hcase⟩ := merged_user hmerged hv
      obtain ⟨identity₀, hi₀, rfl⟩ := List.mem_map.mp (hmerged.chatIdentities ▸ Table.mem_def.mp hi)
      have howner : v.id = identity₀.userId.merged source target := hid
      unfold Uuid.merged at howner
      rcases hcase with ⟨hsource, -⟩ | ⟨hsource, hinto, -⟩
      · split at howner
        · exact absurd (hsource.symm.trans (hsame.symm.trans howner)) (hchat.ne hweb)
        · rename_i hne
          exact absurd (howner.symm.trans (hsame.trans hsource)) hne
      · rw [hinto]
        split at howner
        · exact hI.live hv₀ (by rw [← hsame, howner]; exact hweb)
        · exact hI.owners identity₀ hi₀ v₀ hv₀ (hsame.symm.trans howner)
  · obtain ⟨hidentities, ⟨husers, -⟩ | ⟨id, email, -, hrows, -⟩⟩ := drift_accounts hm
    · exact hI.owners identity (hidentities ▸ hi) v (husers ▸ hv) hid
    · rcases List.mem_append.mp (hrows ▸ Table.mem_def.mp hv) with hv | hv
      · exact hI.owners identity (hidentities ▸ hi) v hv hid
      · rw [List.mem_singleton.mp hv]
        rfl

/-- **A step keeps the forest.** -/
theorem forest_step (hx : Reachable env x) (hI : Forest x) (hP : upstream env x l = true)
    (hs : x.Step y l) : Forest y where
  mints := mints_step hI hP hs
  targets := targets_step hx hI hs
  sources := sources_step hx hI hs
  calls := calls_step hx hI hP hs
  minted := unmirrored_step hx ⟨hI.minted, hI.alone⟩ hs
  alone := alone_step ⟨hI.minted, hI.alone⟩ hs
  absorbed := absorbed_step hx hI hs
  owners := owners_step hx hI hs

/-- **A tombstone stays as it is.** -/
theorem tombstone_step (hI : Forest x) (hP : upstream env x l = true) (hs : x.Step y l) {v : User}
    (hv : v ∈ World.users x.world) {t : Uuid} (hinto : v.mergedIntoUserId = some t) :
    ∃ v' ∈ World.users y.world, v'.id = v.id ∧ v'.mergedIntoUserId = some t ∧
      v'.mergedAt = v.mergedAt := by
  obtain ⟨v', hv', hid, ⟨hsame, hat⟩ | ⟨i, o, p, target, opts, k, rfl, hp, hk⟩⟩ := users_kept hs hv
  · exact ⟨v', hv', hid, hsame.trans hinto, hat⟩
  · simp only [upstream, Config.pending_eq hp hk] at hP
    obtain ⟨identity, hi, howner⟩ := List.any_eq_true.mp hP
    have hnone := hI.owners identity hi v hv (beq_iff_eq.mp howner).symm
    rw [hnone] at hinto
    cases hinto

/-- The one account is absorbed into the other. -/
def Absorbed (w : World) (a b : Uuid) : Prop := ∃ v ∈ w.users, v.id = a ∧ v.mergedIntoUserId = some b

/-- A relation that ends where it arrives has no cycles. -/
theorem acyclic_of_ends {α : Type} {R : α → α → Prop} (h : ∀ a b c, R a b → ¬ R b c) (a : α) :
    ¬ Relation.TransGen R a a := by
  intro hcycle
  obtain ⟨b, hab, hba⟩ := Relation.TransGen.head'_iff.mp hcycle
  rcases hba.cases_head with rfl | ⟨c, hbc, -⟩
  · exact h _ _ _ hab hab
  · exact h _ _ _ hab hbc

/-- **Chat-born accounts are absorbed into live ones.** In every run that follows the policy: an absorbed
account was minted for a chat, and its target is there and not itself absorbed; no account is absorbed
into itself, directly or through others; and an account once absorbed stays absorbed into the same. -/
theorem absorbed_once (env : Env) {x : Config (service env)}
    (h : Follows (upstream env) ⟨World.initial, []⟩ x) :
    (∀ v ∈ World.users x.world, ∀ t, v.mergedIntoUserId = some t → Born x.world true v.id ∧
      ∃ v' ∈ World.users x.world, v'.id = t ∧ v'.mergedIntoUserId = none) ∧
    (∀ a, ¬ Relation.TransGen (Absorbed x.world) a a) ∧
    ∀ y, Follows (upstream env) x y → ∀ v ∈ World.users x.world, ∀ t, v.mergedIntoUserId = some t →
      ∃ v' ∈ World.users y.world, v'.id = v.id ∧ v'.mergedIntoUserId = some t ∧
        v'.mergedAt = v.mergedAt := by
  have hforest : ∀ {y}, Follows (upstream env) ⟨World.initial, []⟩ y → Forest y := fun hy =>
    hy.invariant forest_initial fun hu hI hP hl => forest_step hu hI hP (Config.next_step hl)
  have hI := hforest h
  refine ⟨fun v hv t hinto => ?_, acyclic_of_ends fun a b c hab hbc => ?_, fun y hy v hv t hinto => ?_⟩
  · obtain ⟨hchat, hweb, v', hv', rfl⟩ := hI.absorbed v hv t hinto
    exact ⟨hchat, v', hv', rfl, hI.live hv' hweb⟩
  · obtain ⟨v, hv, -, hinto⟩ := hab
    obtain ⟨v', hv', rfl, hinto'⟩ := hbc
    rw [hI.live hv' (hI.absorbed v hv _ hinto).2.1] at hinto'
    cases hinto'
  · induction hy with
    | refl => exact ⟨v, hv, rfl, hinto, rfl⟩
    | tail hrun hl ih =>
        obtain ⟨l, hP, hl⟩ := hl
        obtain ⟨v', hv', hid, hinto', hat⟩ := ih
        obtain ⟨v'', hv'', hid', hinto'', hat'⟩ := tombstone_step (hforest (h.trans hrun)) hP
          (Config.next_step hl) hv' hinto'
        exact ⟨v'', hv'', hid'.trans hid, hinto'', hat'.trans hat⟩

namespace Demo

def laterWeb : Uuid := ⟨"00000000-0000-4000-8001-000000000005", by decide⟩

/-- Process `i` goes on, with a second code. -/
def returns (i n : Nat) : List (Label (service settings)) :=
  List.replicate n (.perform i (.served ⟨laterWeb, "NEXT"⟩))

/-- A linked chat types the code of another web account. -/
def relinking : List (Label (service settings)) :=
  connecting ++ goes 1 3 ++ .drift (.signUp laterWeb "later") :: .arrive (.mint laterWeb) ::
  returns 2 6 ++ .arrive (.message .telegram "42" none (some "NEXT")) :: returns 3 11

/-- This user is absorbed into that one. -/
def absorbedInto (source target : Uuid) (x : Config (service settings)) : Bool :=
  (World.users x.world).rows.any fun v => v.id == source && v.mergedIntoUserId == some target

theorem absorbedInto_iff {source target : Uuid} {x : Config (service settings)}
    (h : absorbedInto source target x = true) :
    ∃ v ∈ World.users x.world, v.id = source ∧ v.mergedIntoUserId = some target := by
  obtain ⟨v, hv, hboth⟩ := List.any_eq_true.mp h
  exact ⟨v, hv, by simpa using hboth⟩

end Demo

set_option maxRecDepth 20000 in
/-- **A linked chat that types another code has its web account absorbed.** -/
theorem web_absorbed : ¬ ∀ (env : Env) (x : Config (service env)), Reachable env x →
    ∀ v ∈ World.users x.world, ∀ t, v.mergedIntoUserId = some t → Born x.world true v.id := by
  intro hall
  have hrun : ((Config.run Guard.free Demo.relinking ⟨World.initial, []⟩).map fun x =>
      Demo.absorbedInto Demo.webBorn Demo.laterWeb x &&
        decide (Born x.world false Demo.webBorn)) = some true := by decide
  obtain ⟨x, hx, htest⟩ := exists_of_run hrun
  obtain ⟨habsorbed, hweb⟩ := Bool.and_eq_true_iff.mp htest
  obtain ⟨v, hv, hid, hinto⟩ := Demo.absorbedInto_iff habsorbed
  exact (hall _ x hx v hv _ hinto).ne (hid ▸ of_decide_eq_true hweb) rfl

set_option maxRecDepth 20000 in
/-- A first contact is absorbed into the account that minted the code. -/
theorem absorbed_once_connecting : ∃ x : Config (service Demo.settings),
    (Follows (upstream Demo.settings) ⟨World.initial, []⟩ x ∧
      Demo.absorbedInto Demo.chatBorn Demo.webBorn x = true) ∧
    (∀ v ∈ World.users x.world, ∀ t, v.mergedIntoUserId = some t → Born x.world true v.id ∧
      ∃ v' ∈ World.users x.world, v'.id = t ∧ v'.mergedIntoUserId = none) ∧
    ∀ a, ¬ Relation.TransGen (Absorbed x.world) a a := by
  have hrun : ((Config.follow (upstream Demo.settings) (Demo.connecting ++ Demo.goes 1 3)
      ⟨World.initial, []⟩).map (Demo.absorbedInto Demo.chatBorn Demo.webBorn)) = some true := by decide
  obtain ⟨x, hx, htest⟩ := exists_of_follow hrun
  have honce := absorbed_once Demo.settings hx
  exact ⟨x, ⟨hx, htest⟩, honce.1, honce.2.1⟩

end Meduman.Linking
