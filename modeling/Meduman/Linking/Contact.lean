import Meduman.Effect.Serial
import Meduman.Linking.Forest

/-!
# First contact

The auth user of a chat account is minted outside the database, under an address that follows from the
account; whoever is cut off after that leaves it without identity, and nobody can mint it again.

* `contacts` : runs of first contacts
* `Converges` : a retry succeeds, and leaves the account its one identity
* `Orphaned` : the account's address is taken, and the account has no identity
* `recoverable` : whoever mints an auth user goes on to its identity
* `Rooted`, `rooted_step` : users, identities and calls in progress have their auth users
* `Covered`, `covered_step` : in recoverable runs an address taken has its identity, or a call makes it
* **`contact_converges`** : recoverable runs converge; and a retry converges unless the account is orphaned
* `contact_stuck` : otherwise an account may never get its identity
-/

set_option autoImplicit false

namespace Meduman.Linking

open Effect Chat

/-! ## Runs of first contacts -/

def Call.isContact : Call → Bool
  | .message _ _ _ none => true
  | _ => false

theorem Call.isContact_spec {c : Call} (h : c.isContact = true) :
    ∃ platform platformUserId displayName, c = .message platform platformUserId displayName none := by
  cases c with
  | message platform platformUserId displayName connect =>
      cases connect with
      | none => exact ⟨_, _, _, rfl⟩
      | some code => cases h
  | _ => cases h

variable (env : Env)

/-- The address is one of the domain of chat accounts. -/
def inChatDomain (email : String) : Bool :=
  ("@" ++ env.chatIdentityEmailDomain).toList.isSuffixOf email.toList

/-- Only first contacts arrive. -/
def contacts : Policy (service env) := fun _ l =>
  match l with
  | .arrive c => c.isContact
  | _ => true

/-- Only first contacts arrive, and nobody signs up under an address of the chat domain. Whoever mints an
auth user is told, and is not cut off before its identity is created, which does not fail. -/
def recoverable : Policy (service env) := fun x l =>
  match l with
  | .arrive c => c.isContact
  | .perform i fate => match x.pending i, fate with
      | some (_, ⟨.createUser _, _⟩), .lost .. => false
      | some (_, ⟨.identityCreate _, _⟩), .failed _ => false
      | _, _ => true
  | .crash i => match x.pending i with
      | some (_, ⟨.identityCreate _, _⟩) => false
      | _ => true
  | .drift (.signUp _ email) => !inChatDomain env email
  | .drift _ => true

/-! ## What a retry should leave -/

/-- The identity is the account's only one, and belongs to the mirror of the one auth user with the
account's address. -/
structure Attached (platform : ChatPlatform) (platformUserId : String) (identity : ChatIdentity)
    (w : World) : Prop where
  mem : identity ∈ w.chatIdentities
  account : identity.platform = platform ∧ identity.platformUserId = platformUserId
  only : ∀ i ∈ w.chatIdentities, i.platform = platform → i.platformUserId = platformUserId →
    i = identity
  mirrored : ∃ v ∈ w.users, v.id = identity.userId
  minted : ∃ a ∈ w.authUsers, a.id = identity.userId ∧
    a.email = syntheticEmail env platform platformUserId ∧
      ∀ b ∈ w.authUsers, b.email = syntheticEmail env platform platformUserId → b = a

/-- An operation that is served. -/
def isServed (fate : Fate Supply) : Prop := ∃ s, fate = .served s

/-- A retry that is served ends, and always with the account's identity. -/
def Converges (platform : ChatPlatform) (platformUserId : String) (w : World) : Prop :=
  ∀ displayName : Option String,
    (∃ r w', (resolveOrCreate env platform platformUserId displayName).Ends (service env) isServed
      w r w') ∧
    ∀ r w', (resolveOrCreate env platform platformUserId displayName).Ends (service env) isServed
      w r w' → ∃ identity, r = .ok identity ∧ Attached env platform platformUserId identity w'

def HasIdentity (platform : ChatPlatform) (platformUserId : String) (w : World) : Prop :=
  ∃ i ∈ w.chatIdentities, i.platform = platform ∧ i.platformUserId = platformUserId

/-- Somebody has the account's address, and the account has no identity. -/
def Orphaned (platform : ChatPlatform) (platformUserId : String) (w : World) : Prop :=
  (∃ a ∈ w.authUsers, a.email = syntheticEmail env platform platformUserId) ∧
    ¬ HasIdentity platform platformUserId w

/-- An identifier that is nobody's. -/
def Fresh (id : Uuid) (w : World) : Prop :=
  (∀ a ∈ w.authUsers, a.id ≠ id) ∧ (∀ v ∈ w.users, v.id ≠ id) ∧ ∀ i ∈ w.chatIdentities, i.id ≠ id

variable {env} {platform : ChatPlatform} {platformUserId : String} {displayName : Option String}
  {h : Hist} {x y : Config (service env)} {l : Label (service env)} {u w w' : World} {id : Uuid}
  {p : Process (service env)}

/-! ## Addresses -/

/-- The platforms' names differ in their first letter. -/
theorem platform_of_lowerCase {p q : ChatPlatform}
    (h : (lowerCase p).toList.head? = (lowerCase q).toList.head?) : p = q := by
  revert h
  cases p <;> cases q <;> decide

theorem head_lowerCase_append (p : ChatPlatform) (l : List Char) :
    ((lowerCase p).toList ++ l).head? = (lowerCase p).toList.head? := by
  rw [List.head?_append]
  cases p <;> rfl

/-- **The address of an account is its own.** -/
theorem syntheticEmail_injective {p q : ChatPlatform} {a b : String}
    (h : syntheticEmail env p a = syntheticEmail env q b) : p = q ∧ a = b := by
  have hlist := congrArg String.toList h
  simp only [syntheticEmail, String.toList_append, List.append_assoc] at hlist
  replace hlist := List.append_cancel_left hlist
  obtain rfl : p = q := by
    have hhead := congrArg List.head? hlist
    rw [head_lowerCase_append, head_lowerCase_append] at hhead
    exact platform_of_lowerCase hhead
  replace hlist := List.append_cancel_left (List.append_cancel_left hlist)
  exact ⟨rfl, String.toList_inj.mp (List.append_cancel_right hlist)⟩

theorem inChatDomain_syntheticEmail :
    inChatDomain env (syntheticEmail env platform platformUserId) = true := by
  simp only [inChatDomain, syntheticEmail, String.toList_append, List.append_assoc,
    List.isSuffixOf_iff_suffix]
  exact ⟨"chat+".toList ++ ((lowerCase platform).toList ++ ("-".toList ++ platformUserId.toList)),
    by simp only [List.append_assoc]⟩

/-! ## What a first contact promises -/

/-- What a first contact has done when it is about to do something. -/
def Contacting (env : Env) (platform : ChatPlatform) (platformUserId : String) (h : Hist) : Op → Prop
  | .createUser email => mintedUser h = none ∧ email = syntheticEmail env platform platformUserId
  | .identityCreate d => mintedUser h = some d.authUserId ∧ d.platform = platform ∧
      d.platformUserId = platformUserId ∧ d.email = syntheticEmail env platform platformUserId
  | .mergeAccounts .. => False
  | _ => mintedUser h = none

/-- What a call that is one has done. -/
def ContactPromise (env : Env) (c : Call) (h : Hist) (op : Op) : Prop :=
  ∀ platform platformUserId displayName, c = .message platform platformUserId displayName none →
    Contacting env platform platformUserId h op

/-- It leaves no auth user without identity. -/
def ContactDone {α : Type} (_ : Except Err α) (h : Hist) : Prop := mintedUser h = none

/-- Looking an account up mints nothing. -/
theorem mintedUser_read (hnone : mintedUser h = none)
    (a : Except Err (Op.Ans (.chatIdentityFindByAccount platform platformUserId))) :
    mintedUser (⟨.chatIdentityFindByAccount platform platformUserId, a⟩ :: h) = none :=
  mintedUser_cons.trans hnone

/-- Whoever lost the race has nothing left to do. -/
theorem winner_contacts (e : Err) (hnone : mintedUser h = none) :
    (if e = uniqueViolation then do
        match ← await (.chatIdentityFindByAccount platform platformUserId) with
        | some winner => pure winner
        | none => Prog.throw e
      else Prog.throw e : Program ChatIdentity).Along (fun _ => True)
        (Contacting env platform platformUserId) ContactDone h := by
  split
  · rw [along_perform_bind]
    refine ⟨hnone, fun _ _ => mintedUser_read hnone _, fun found _ => ?_⟩
    cases found <;> exact mintedUser_read hnone _
  · exact hnone

theorem resolveOrCreate_contacts (hnone : mintedUser h = none) :
    (resolveOrCreate env platform platformUserId displayName).Along (fun _ => True)
      (Contacting env platform platformUserId) ContactDone h := by
  unfold resolveOrCreate
  rw [along_perform_bind]
  have hread (a : Except Err (Option ChatIdentity)) :
      mintedUser (⟨.chatIdentityFindByAccount platform platformUserId, a⟩ :: h) = none :=
    mintedUser_read hnone a
  refine ⟨hnone, fun _ _ => hread _, fun found _ => ?_⟩
  cases found with
  | some existing => exact hread _
  | none =>
      dsimp only
      rw [along_perform_bind]
      refine ⟨⟨hread _, rfl⟩, fun _ _ => mintedUser_cons.trans (hread _), fun authUserId _ => ?_⟩
      rw [along_tryCatch, along_perform_bind]
      refine ⟨⟨mintedUser_cons, rfl, rfl, rfl⟩, fun e _ => winner_contacts e mintedUser_cons,
        fun identity _ => ?_⟩
      rw [along_perform_bind]
      exact ⟨mintedUser_cons, fun e _ => winner_contacts e (mintedUser_cons.trans mintedUser_cons),
        fun _ _ => mintedUser_cons.trans mintedUser_cons⟩

/-- A call that is one, likewise. -/
def ContactLeft (c : Call) (_ : Except Err Reply) (h : Hist) : Prop :=
  c.isContact = true → mintedUser h = none

theorem code_contacts (env : Env) (c : Call) :
    (code env c).Along (fun _ => True) (ContactPromise env c) (ContactLeft c) [] := by
  by_cases hc : c.isContact = true
  · obtain ⟨platform, platformUserId, displayName, rfl⟩ := Call.isContact_spec hc
    have hown : (resolveOrCreate env platform platformUserId displayName).Along (fun _ => True)
        (ContactPromise env (.message platform platformUserId displayName none)) ContactDone [] :=
      (resolveOrCreate_contacts (h := []) rfl).weaken fun h op hop _ _ _ hsame => by
        cases hsame
        exact hop
    refine (along_bind _ _).mpr (hown.mono fun r h hdone => ?_)
    cases r with
    | ok identity => exact fun _ => hdone
    | error e => exact fun _ => hdone
  · exact (uses_any _).along (fun h op _ _ _ _ hsame => absurd (by rw [hsame]; rfl) hc)
      fun _ _ _ hyes => absurd hyes hc

/-- What a call in progress still promises. -/
theorem contact_along (hx : Reachable env x) (hp : p ∈ x.procs) {prog : Program Reply}
    (hprog : p.prog = some prog) :
    prog.Along (fun _ => True) (ContactPromise env p.call) (ContactLeft p.call) p.hist :=
  Reaches.along (fun _ => trivial) (fun {c} {_} _ => code_contacts env c) hx p hp _ hprog

theorem contacting_of_reaches (hx : Reachable env x) (hp : p ∈ x.procs)
    (hcall : p.call = .message platform platformUserId displayName none) {op : Op}
    {k : Except Err op.Ans → Program Reply} (hk : p.prog = some (.call op k)) :
    Contacting env platform platformUserId p.hist op :=
  (contact_along hx hp hk).1 _ _ _ hcall

/-- **A first contact that has minted an auth user goes on to its identity.** -/
theorem identityCreate_of_minted (hx : Reachable env x) (hp : p ∈ x.procs)
    (hcall : p.call = .message platform platformUserId displayName none)
    (hm : mintedUser p.hist = some id) (hlive : p.prog ≠ none) :
    ∃ d k, p.prog = some (.call (.identityCreate d) k) ∧ d.authUserId = id ∧ d.platform = platform ∧
      d.platformUserId = platformUserId ∧ d.email = syntheticEmail env platform platformUserId := by
  obtain ⟨prog, hprog⟩ := Option.ne_none_iff_exists'.mp hlive
  cases prog with
  | done r =>
      have hdone : ContactLeft p.call r p.hist := contact_along hx hp hprog
      rw [hdone (by rw [hcall]; rfl)] at hm
      cases hm
  | call op k =>
      have hpromise := contacting_of_reaches hx hp hcall hprog
      cases op with
      | identityCreate d =>
          obtain ⟨hmine, hplatform, haccount, hemail⟩ := hpromise
          exact ⟨d, k, hprog, Option.some.inj (hmine.symm.trans hm), hplatform, haccount, hemail⟩
      | createUser email =>
          rw [hpromise.1] at hm
          cases hm
      | mergeAccounts source target opts => exact hpromise.elim
      | _ =>
          replace hpromise : mintedUser p.hist = none := hpromise
          rw [hpromise] at hm
          cases hm

/-! ## Every account has its auth user -/

/-- This auth user has the account's address. -/
def Holds (env : Env) (platform : ChatPlatform) (platformUserId : String) (id : Uuid) (w : World) :
    Prop := ∃ a ∈ w.authUsers, a.id = id ∧ a.email = syntheticEmail env platform platformUserId

/-- Users mirror auth users, and an identity belongs to the mirror of the one with its address; so does
what a call is about to create. -/
structure Rooted (x : Config (service env)) : Prop where
  contact : ∀ p ∈ x.procs, p.call.isContact = true
  minted : ∀ p ∈ x.procs, ∀ platform platformUserId displayName,
    p.call = .message platform platformUserId displayName none →
      ∀ id, mintedUser p.hist = some id → Holds env platform platformUserId id x.world
  users : ∀ v ∈ World.users x.world, ∃ a ∈ World.authUsers x.world, a.id = v.id ∧ a.email = v.email
  identities : ∀ i ∈ World.chatIdentities x.world, (∃ v ∈ World.users x.world, v.id = i.userId) ∧
    Holds env i.platform i.platformUserId i.userId x.world

theorem rooted_initial : Rooted (⟨World.initial, []⟩ : Config (service env)) where
  contact _ hp := absurd hp List.not_mem_nil
  minted _ hp := absurd hp List.not_mem_nil
  users _ hv := absurd hv (Table.not_mem_empty _)
  identities _ hi := absurd hi (Table.not_mem_empty _)

theorem contact_step (hI : Rooted x) (hP : contacts env x l = true) (hs : x.Step y l) :
    ∀ q ∈ y.procs, q.call.isContact = true := by
  intro q hq
  obtain ⟨j, hj⟩ := List.getElem?_of_mem hq
  have hold (p : Process (service env)) (hp : x.procs[j]? = some p) : p.call.isContact = true :=
    hI.contact p (List.mem_of_getElem? hp)
  cases hs with
  | arrive hadm hw hprocs =>
      rw [hprocs] at hq
      rcases List.mem_append.mp hq with hq | hq
      · exact hI.contact q hq
      · rw [List.mem_singleton.mp hq]
        exact hP
  | @perform i choice p op k a hp hk he hprocs =>
      rw [hprocs] at hj
      rcases getElem?_set_cases hp hj with ⟨rfl, rfl⟩ | ⟨-, hj⟩
      · exact hold p hp
      · exact hold q hj
  | @crash i p hp hw hprocs =>
      rw [hprocs] at hj
      rcases getElem?_set_cases hp hj with ⟨rfl, rfl⟩ | ⟨-, hj⟩
      · exact hold p hp
      · exact hold q hj
  | drift hm hprocs => exact hI.contact q (hprocs ▸ hq)

/-- An auth user stays. -/
theorem authUsers_kept (hs : x.Step y l) {a : AuthUser} (ha : a ∈ World.authUsers x.world) :
    a ∈ World.authUsers y.world := by
  rcases hs.world_cases with hw | ⟨i, o, p, op, k, r, -, -, -, he, -⟩ | ⟨m, -, hm⟩
  · exact hw ▸ ha
  · replace he : backend.exec op o x.world = some (r, y.world) := he
    rcases authUsers_change he with hsame | ⟨email, id, -, hrows⟩
    · exact hsame ▸ ha
    · exact Table.mem_def.mpr (hrows ▸ List.mem_append_left _ ha)
  · rcases (drift_accounts hm).2 with ⟨-, hsame⟩ | ⟨id, email, -, -, hrows⟩
    · exact hsame ▸ ha
    · exact Table.mem_def.mpr (hrows ▸ List.mem_append_left _ ha)

theorem Holds.kept (hs : x.Step y l) (h : Holds env platform platformUserId id x.world) :
    Holds env platform platformUserId id y.world := by
  obtain ⟨a, ha, hboth⟩ := h
  exact ⟨a, authUsers_kept hs ha, hboth⟩

/-- **What a first contact does to the users and the identities:** it leaves them alone, or creates an
identity, its user there or new. -/
theorem contact_accounts (hx : Reachable env x) (hI : Rooted x) (hs : x.Step y l) :
    (World.chatIdentities y.world = World.chatIdentities x.world ∧
      (World.users y.world = World.users x.world ∨ ∃ id email,
        (World.users y.world).rows = (World.users x.world).rows ++ [webUser id email] ∧
        (World.authUsers y.world).rows = (World.authUsers x.world).rows ++ [⟨id, email, false⟩])) ∨
    ∃ i o p d k id, l = .perform i o ∧ x.procs[i]? = some p ∧
      p.prog = some (.call (.identityCreate d) k) ∧
      ((World.users y.world) = World.users x.world ∧
          (∃ v ∈ World.users x.world, v.id = d.authUserId) ∨
        (World.users y.world).rows = (World.users x.world).rows ++ [chatUser d]) ∧
      (World.chatIdentities y.world).rows =
        (World.chatIdentities x.world).rows ++ [chatIdentity d id] := by
  rcases hs.world_cases with hw | ⟨i, o, p, op, k, a, hl, hp, hk, he, -⟩ | ⟨m, -, hm⟩
  · rw [hw]
    exact .inl ⟨rfl, .inl rfl⟩
  · replace he : backend.exec op o x.world = some (a, y.world) := he
    rcases accounts_change he with ⟨husers, hidentities⟩ | ⟨d, id, rfl, husers, hidentities⟩ |
      ⟨source, target, opts, rfl, -⟩
    · exact .inl ⟨hidentities, .inl husers⟩
    · exact .inr ⟨i, o, p, d, k, id, hl, hp, hk, husers.imp_right And.right, hidentities⟩
    · have hmem := List.mem_of_getElem? hp
      obtain ⟨_, _, _, hcall⟩ := Call.isContact_spec (hI.contact p hmem)
      exact (contacting_of_reaches hx hmem hcall hk : False).elim
  · obtain ⟨hidentities, ⟨husers, -⟩ | ⟨id, email, -, husers, hauth⟩⟩ := drift_accounts hm
    · exact .inl ⟨hidentities, .inl husers⟩
    · exact .inl ⟨hidentities, .inr ⟨id, email, husers, hauth⟩⟩

/-- A user stays. -/
theorem Rooted.users_kept (hx : Reachable env x) (hI : Rooted x) (hs : x.Step y l) {v : User}
    (hv : v ∈ World.users x.world) : v ∈ World.users y.world := by
  rcases contact_accounts hx hI hs with ⟨-, hsame | ⟨id, email, hrows, -⟩⟩ |
    ⟨i, o, p, d, k, id, -, -, -, ⟨hsame, -⟩ | hrows, -⟩
  · exact hsame ▸ hv
  · exact Table.mem_def.mpr (hrows ▸ List.mem_append_left _ hv)
  · exact hsame ▸ hv
  · exact Table.mem_def.mpr (hrows ▸ List.mem_append_left _ hv)

/-- An identity stays. -/
theorem Rooted.identities_kept (hx : Reachable env x) (hI : Rooted x) (hs : x.Step y l)
    {i : ChatIdentity} (hi : i ∈ World.chatIdentities x.world) :
    i ∈ World.chatIdentities y.world := by
  rcases contact_accounts hx hI hs with ⟨hsame, -⟩ | ⟨j, o, p, d, k, id, -, -, -, -, hrows⟩
  · exact hsame ▸ hi
  · exact Table.mem_def.mpr (hrows ▸ List.mem_append_left _ hi)

/-- What a call is about to create has its auth user. -/
theorem Rooted.creating (hx : Reachable env x) (hI : Rooted x) (hp : p ∈ x.procs) {d : IdentityCreate}
    {k : Except Err ChatIdentity → Program Reply} (hk : p.prog = some (.call (.identityCreate d) k)) :
    Holds env d.platform d.platformUserId d.authUserId x.world ∧
      d.email = syntheticEmail env d.platform d.platformUserId := by
  obtain ⟨platform, platformUserId, displayName, hcall⟩ := Call.isContact_spec (hI.contact p hp)
  obtain ⟨hm, rfl, rfl, hemail⟩ := contacting_of_reaches hx hp hcall hk
  exact ⟨hI.minted p hp _ _ _ hcall _ hm, hemail⟩

theorem minted_holds_step (hx : Reachable env x) (hI : Rooted x) (hs : x.Step y l) :
    ∀ q ∈ y.procs, ∀ platform platformUserId displayName,
      q.call = .message platform platformUserId displayName none →
        ∀ id, mintedUser q.hist = some id → Holds env platform platformUserId id y.world := by
  intro q hq platform platformUserId displayName hcall id hm
  obtain ⟨j, hj⟩ := List.getElem?_of_mem hq
  rcases hs.hist_cases hj with ⟨p, hp, hsame, hhist⟩ | hnil |
    ⟨p, op, k, o, a, hp, hk, -, he, hsame, hhist⟩
  · exact (hI.minted p (List.mem_of_getElem? hp) _ _ _ (hsame ▸ hcall) id (hhist ▸ hm)).kept hs
  · rw [hnil] at hm
    cases hm
  · have hmem := List.mem_of_getElem? hp
    rw [hsame] at hcall
    rw [hhist] at hm
    rcases mintedUser_step hm with ⟨hm, -⟩ | ⟨email, heq⟩
    · exact (hI.minted p hmem _ _ _ hcall id hm).kept hs
    · cases heq
      replace he : backend.exec (.createUser email) o x.world = some (.ok id, y.world) := he
      have hpromise := contacting_of_reaches hx hmem hcall hk
      exact ⟨_, Table.mem_def.mpr ((createUser_ok he).2.2 ▸
        List.mem_append_right _ (List.mem_singleton_self _)), rfl, hpromise.2⟩

/-- **A step of first contacts keeps the roots.** -/
theorem rooted_step (hx : Reachable env x) (hI : Rooted x) (hP : contacts env x l = true)
    (hs : x.Step y l) : Rooted y where
  contact := contact_step hI hP hs
  minted := minted_holds_step hx hI hs
  users v hv := by
    have hold {v : User} (hv : v ∈ World.users x.world) :
        ∃ a ∈ World.authUsers y.world, a.id = v.id ∧ a.email = v.email := by
      obtain ⟨a, ha, hboth⟩ := hI.users v hv
      exact ⟨a, authUsers_kept hs ha, hboth⟩
    rcases contact_accounts hx hI hs with ⟨-, hsame | ⟨id, email, hrows, hauth⟩⟩ |
      ⟨i, o, p, d, k, id, -, hp, hk, ⟨hsame, -⟩ | hrows, -⟩
    · exact hold (hsame ▸ hv)
    · rcases List.mem_append.mp (hrows ▸ Table.mem_def.mp hv) with hv | hv
      · exact hold hv
      · rw [List.mem_singleton.mp hv]
        exact ⟨_, Table.mem_def.mpr (hauth ▸ List.mem_append_right _ (List.mem_singleton_self _)),
          rfl, rfl⟩
    · exact hold (hsame ▸ hv)
    · rcases List.mem_append.mp (hrows ▸ Table.mem_def.mp hv) with hv | hv
      · exact hold hv
      · obtain ⟨⟨a, ha, hid, hemail⟩, hd⟩ := hI.creating hx (List.mem_of_getElem? hp) hk
        rw [List.mem_singleton.mp hv]
        exact ⟨a, authUsers_kept hs ha, hid, hemail.trans hd.symm⟩
  identities i hi := by
    have hold {i : ChatIdentity} (hi : i ∈ World.chatIdentities x.world) :
        (∃ v ∈ World.users y.world, v.id = i.userId) ∧
          Holds env i.platform i.platformUserId i.userId y.world := by
      obtain ⟨⟨v, hv, hid⟩, hholds⟩ := hI.identities i hi
      exact ⟨⟨v, hI.users_kept hx hs hv, hid⟩, hholds.kept hs⟩
    rcases contact_accounts hx hI hs with ⟨hsame, -⟩ |
      ⟨j, o, p, d, k, id, -, hp, hk, husers, hrows⟩
    · exact hold (hsame ▸ hi)
    · rcases List.mem_append.mp (hrows ▸ Table.mem_def.mp hi) with hi | hi
      · exact hold hi
      · rw [List.mem_singleton.mp hi]
        refine ⟨?_, (hI.creating hx (List.mem_of_getElem? hp) hk).1.kept hs⟩
        rcases husers with ⟨hsame, v, hv, hid⟩ | husers
        · exact ⟨v, hsame ▸ hv, hid⟩
        · exact ⟨chatUser d, Table.mem_def.mpr (husers ▸
            List.mem_append_right _ (List.mem_singleton_self _)), rfl⟩

/-- **In every run of first contacts,** accounts have their roots. -/
theorem rooted_of_follows (h : Follows (contacts env) ⟨World.initial, []⟩ x) : Rooted x :=
  h.invariant rooted_initial fun hu hI hP hl => rooted_step hu hI hP (Config.next_step hl)

/-! ## Nobody is left without identity -/

/-- Nothing stands in the way of the first identity of an account: its user is there, or can be
created. -/
theorem createIdentity_ok {d : IdentityCreate} (husers : ∀ v ∈ w.users, v.email = d.email →
    v.id = d.authUserId) (hfresh : ∀ i ∈ w.chatIdentities, i.id ≠ id)
    (hnone : ¬ HasIdentity d.platform d.platformUserId w) :
    ∃ users chatIdentities, createIdentity d id w =
        (.ok (chatIdentity d id), { w with users := users, chatIdentities := chatIdentities }) ∧
      (∃ v ∈ users, v.id = d.authUserId) ∧
      chatIdentities.rows = w.chatIdentities.rows ++ [chatIdentity d id] := by
  obtain ⟨chatIdentities, hcreate⟩ := Table.create_isSome (t := w.chatIdentities)
    (a := chatIdentity d id) fun i hi => by
      simp only [← Bool.not_eq_true, Constrained.clash, chatIdentity, Bool.or_eq_true, Bool.and_eq_true,
        beq_iff_eq]
      rintro (hid | hboth)
      · exact hfresh i hi hid
      · exact hnone ⟨i, hi, hboth⟩
  have hrows := Table.rows_create hcreate
  unfold createIdentity
  cases hfind : w.users.find fun v => v.id == d.authUserId with
  | some v =>
      obtain ⟨hv, hid⟩ := Table.find_spec hfind
      simp only [hcreate]
      exact ⟨_, _, rfl, ⟨v, hv, beq_iff_eq.mp hid⟩, hrows⟩
  | none =>
      obtain ⟨users, hmirror⟩ := Table.create_isSome (t := w.users) (a := chatUser d) fun v hv => by
        have hne : v.id ≠ d.authUserId := by simpa using Table.find_none hfind hv
        simp only [Constrained.clash, chatUser, Bool.or_eq_false_iff, beq_eq_false_iff_ne]
        exact ⟨hne, fun hemail => hne (husers v hv hemail)⟩
      simp only [hcreate, hmirror]
      exact ⟨_, _, rfl, ⟨chatUser d, (Table.mem_create hmirror).mpr (.inr rfl), rfl⟩, hrows⟩

/-- Users with an auth user's address mirror it. -/
theorem Rooted.user_of_email (hI : Rooted x) {a : AuthUser} (ha : a ∈ World.authUsers x.world)
    {v : User} (hv : v ∈ World.users x.world) (hemail : v.email = a.email) : v.id = a.id := by
  obtain ⟨b, hb, hid, hsame⟩ := hI.users v hv
  have heq : b = a := Table.eq_of_clash hb ha (by simp [Constrained.clash, hsame, hemail])
  rw [← hid, heq]

/-- Every chat address that is taken is an identity's, or of a call about to create one. -/
def Covered (x : Config (service env)) : Prop :=
  ∀ a ∈ World.authUsers x.world, ∀ platform platformUserId,
    a.email = syntheticEmail env platform platformUserId →
      HasIdentity platform platformUserId x.world ∨ ∃ (i : Nat) (p : Process (service env)),
        x.procs[i]? = some p ∧ (∃ d, p.call = .message platform platformUserId d none) ∧
          mintedUser p.hist = some a.id ∧ p.prog ≠ none

theorem HasIdentity.kept (hx : Reachable env x) (hI : Rooted x) (hs : x.Step y l)
    (h : HasIdentity platform platformUserId x.world) :
    HasIdentity platform platformUserId y.world := by
  obtain ⟨i, hi, haccount⟩ := h
  exact ⟨i, hI.identities_kept hx hs hi, haccount⟩

/-- **An identity about to be created is there afterwards,** unless the creation fails. -/
theorem created_step (hx : Reachable env x) (hI : Rooted x) {i : Nat} {o : Fate Supply}
    (hp : x.procs[i]? = some p) {d : IdentityCreate} {k : Except Err ChatIdentity → Program Reply}
    (hk : p.prog = some (.call (.identityCreate d) k)) (hP : recoverable env x (.perform i o) = true)
    (hs : x.Step y (.perform i o)) : HasIdentity d.platform d.platformUserId y.world := by
  by_cases hhas : HasIdentity d.platform d.platformUserId x.world
  · exact hhas.kept hx hI hs
  · obtain ⟨⟨a, ha, hid, hemail⟩, hd⟩ := hI.creating hx (List.mem_of_getElem? hp) hk
    have husers (v : User) (hv : v ∈ World.users x.world) (hsame : v.email = d.email) :
        v.id = d.authUserId :=
      (hI.user_of_email ha hv ((hsame.trans hd).trans hemail.symm)).trans hid
    cases hs with
    | perform hp' hk' he hprocs =>
        cases hp.symm.trans hp'
        cases hk.symm.trans hk'
        replace he : backend.exec (.identityCreate d) o x.world = some (_, y.world) := he
        obtain ⟨s, -, hfits, hw⟩ := Backend.exec_carried he fun message ho => by
          simp [recoverable, Config.pending_eq hp hk, ho] at hP
        obtain ⟨users, chatIdentities, heff, -, hrows⟩ := createIdentity_ok husers
          (fun i hi => bne_iff_ne.mp (List.all_eq_true.mp hfits i hi)) hhas
        rw [hw]
        simp only [backend, effect, heff]
        exact ⟨_, Table.mem_def.mpr (hrows ▸ List.mem_append_right _ (List.mem_singleton_self _)),
          rfl, rfl⟩

/-- An auth user nobody had before is minted by a call, or signs up. -/
theorem authUsers_origin (hx : Reachable env x) (hI : Rooted x) (hP : recoverable env x l = true)
    (hs : x.Step y l) {a : AuthUser} (ha : a ∈ World.authUsers y.world)
    (hnew : a ∉ World.authUsers x.world) (hemail : a.email = syntheticEmail env platform platformUserId) :
    ∃ (i : Nat) (p : Process (service env)), y.procs[i]? = some p ∧
      (∃ d, p.call = .message platform platformUserId d none) ∧ mintedUser p.hist = some a.id ∧
        p.prog ≠ none := by
  rcases hs.world_cases with hw | ⟨i, o, p, op, k, r, rfl, hp, hk, he, hi⟩ | ⟨m, rfl, hm⟩
  · exact absurd (hw ▸ ha) hnew
  · replace he : backend.exec op o x.world = some (r, y.world) := he
    rcases authUsers_change he with hsame | ⟨email, id, rfl, -⟩
    · exact absurd (hsame ▸ ha) hnew
    · obtain ⟨platform', platformUserId', displayName, hcall⟩ :=
        Call.isContact_spec (hI.contact p (List.mem_of_getElem? hp))
      have hpromise := contacting_of_reaches hx (List.mem_of_getElem? hp) hcall hk
      cases o with
      | failed message =>
          simp only [Backend.exec] at he
          split at he
          · obtain ⟨-, hw⟩ := Prod.mk.inj (Option.some.inj he)
            exact absurd (hw ▸ ha) hnew
          · cases he
      | lost s message => simp [recoverable, Config.pending_eq hp hk] at hP
      | served s =>
          have heff := Backend.exec_served he
          simp only [backend, effect] at heff
          split at heff
          · obtain ⟨-, hw⟩ := Prod.mk.inj heff
            exact absurd (hw ▸ ha) hnew
          · rename_i authUsers hcreate
            obtain ⟨rfl, hw⟩ := Prod.mk.inj heff
            have hmem : a ∈ World.authUsers x.world ∨ a = ⟨s.id, email, true⟩ :=
              (Table.mem_create hcreate).mp (by rw [hw] at ha; exact ha)
            obtain rfl := hmem.resolve_left hnew
            obtain ⟨rfl, rfl⟩ := syntheticEmail_injective (hpromise.2.symm.trans hemail)
            exact ⟨i, _, hi, ⟨displayName, hcall⟩, mintedUser_cons, Option.some_ne_none _⟩
  · cases m with
    | signUp id email =>
        simp only [drift] at hm
        obtain ⟨authUsers, hauth, hm⟩ := Option.bind_eq_some_iff.mp hm
        obtain ⟨users, -, hm⟩ := Option.bind_eq_some_iff.mp hm
        rw [← Option.some.inj hm] at ha
        obtain rfl := ((Table.mem_create hauth).mp ha).resolve_left hnew
        simp only [recoverable, Bool.not_eq_true'] at hP
        rw [show email = _ from hemail, inChatDomain_syntheticEmail] at hP
        cases hP
    | _ =>
        simp only [drift, Option.some.injEq] at hm
        rw [← hm] at ha
        exact absurd ha hnew

/-- **A recoverable step leaves every address taken covered.** -/
theorem covered_step (hx : Reachable env x) (hI : Rooted x) (hC : Covered x)
    (hP : recoverable env x l = true) (hs : x.Step y l) : Covered y := by
  intro a ha platform platformUserId hemail
  by_cases hold : a ∈ World.authUsers x.world
  · rcases hC a hold platform platformUserId hemail with hhas | ⟨j, p, hp, ⟨d, hcall⟩, hm, hlive⟩
    · exact .inl (hhas.kept hx hI hs)
    · obtain ⟨data, k, hk, -, rfl, rfl, -⟩ :=
        identityCreate_of_minted hx (List.mem_of_getElem? hp) hcall hm hlive
      have hstays (hj : y.procs[j]? = some p) : HasIdentity data.platform data.platformUserId y.world ∨
          ∃ (i : Nat) (p : Process (service env)), y.procs[i]? = some p ∧
            (∃ d, p.call = .message data.platform data.platformUserId d none) ∧
              mintedUser p.hist = some a.id ∧ p.prog ≠ none :=
        .inr ⟨j, p, hj, ⟨d, hcall⟩, hm, hlive⟩
      cases hs with
      | arrive hadm hw hprocs =>
          refine hstays ?_
          rw [hprocs, List.getElem?_append_left (List.getElem?_eq_some_iff.mp hp).1, hp]
      | @perform i o q op k' r hq hk' he hprocs =>
          by_cases hij : i = j
          · subst hij
            exact .inl (created_step hx hI hp hk hP (.perform hq hk' he hprocs))
          · exact hstays (by rw [hprocs, List.getElem?_set_ne hij, hp])
      | @crash i q hq hw hprocs =>
          by_cases hij : i = j
          · subst hij
            simp [recoverable, Config.pending_eq hp hk] at hP
          · exact hstays (by rw [hprocs, List.getElem?_set_ne hij, hp])
      | drift hm' hprocs => exact hstays (hprocs ▸ hp)
  · exact .inr (authUsers_origin hx hI hP hs ha hold hemail)

theorem contacts_of_recoverable (h : recoverable env x l = true) : contacts env x l = true := by
  cases l with
  | arrive c => exact h
  | _ => rfl

/-- **In every recoverable run** each address taken is covered. -/
theorem covered_of_follows (h : Follows (recoverable env) ⟨World.initial, []⟩ x) :
    Rooted x ∧ Covered x :=
  h.invariant (I := fun x => Rooted x ∧ Covered x)
    ⟨rooted_initial, fun _ ha => absurd ha (Table.not_mem_empty _)⟩
    fun hu hI hP hl => ⟨rooted_step hu hI.1 (contacts_of_recoverable hP) (Config.next_step hl),
      covered_step hu hI.1 hI.2 hP (Config.next_step hl)⟩

/-- **At rest nobody is left without identity.** -/
theorem not_orphaned (h : Follows (recoverable env) ⟨World.initial, []⟩ x) (hrest : x.atRest = true) :
    ¬ Orphaned env platform platformUserId x.world := by
  rintro ⟨⟨a, ha, hemail⟩, hnone⟩
  rcases (covered_of_follows h).2 a ha platform platformUserId hemail with
    hhas | ⟨i, p, hp, ⟨d, hcall⟩, hm, hlive⟩
  · exact hnone hhas
  · have hmem := List.mem_of_getElem? hp
    obtain ⟨data, k, hk, -⟩ := identityCreate_of_minted h.reaches hmem hcall hm hlive
    exact Config.not_inProgress hrest hmem ⟨_, k, hk⟩

/-! ## A retry -/

/-- One operation of a retry is served. -/
theorem ends_served (op : Op) {α : Type} (f : op.Ans → Program α) (r : Except Err α) :
    (await op >>= f).Ends (service env) isServed w r w' ↔ ∃ s : Supply, op.fits s w = true ∧
      Prog.After (service env) isServed f (effect s w op).1 (effect s w op).2 r w' := by
  rw [Prog.ends_bind]
  constructor
  · rintro ⟨a, u, hop, hafter⟩
    obtain ⟨fate, ⟨s, rfl⟩, he⟩ := (Prog.ends_perform _ _).mp hop
    replace he : backend.exec op (.served s) w = some (a, u) := he
    obtain ⟨rfl, rfl⟩ := Prod.mk.inj (Backend.exec_served he)
    exact ⟨s, Backend.exec_fits he, hafter⟩
  · rintro ⟨s, hfits, hafter⟩
    exact ⟨_, _, (Prog.ends_perform _ _).mpr ⟨.served s, ⟨s, rfl⟩, if_pos hfits⟩, hafter⟩

theorem exists_ends_served {op : Op} {α : Type} {f : op.Ans → Program α} (s : Supply)
    (hfits : op.fits s w = true) (h : ∃ r w', Prog.After (service env) isServed f (effect s w op).1
      (effect s w op).2 r w') :
    ∃ r w', (await op >>= f).Ends (service env) isServed w r w' := by
  obtain ⟨r, w', hafter⟩ := h
  exact ⟨r, w', (ends_served _ _ _).mpr ⟨s, hfits, hafter⟩⟩

/-- The address is free, and the auth user is minted. -/
theorem createUser_free {s : Supply} {email : String}
    (hfits : (Op.createUser email).fits s w = true) (hfree : ∀ a ∈ w.authUsers, a.email ≠ email) :
    ∃ authUsers, w.authUsers.create ⟨s.id, email, true⟩ = some authUsers := by
  simp only [Op.fits, Bool.and_eq_true] at hfits
  refine Table.create_isSome fun a ha => ?_
  have hid : a.id ≠ s.id := bne_iff_ne.mp (List.all_eq_true.mp hfits.1 a ha)
  simp only [Constrained.clash, Bool.or_eq_false_iff, beq_eq_false_iff_ne]
  exact ⟨hid, hfree a ha⟩

/-- The one identity of an account, found. -/
theorem find_identity (h : HasIdentity platform platformUserId w) :
    ∃ i ∈ w.chatIdentities, (i.platform = platform ∧ i.platformUserId = platformUserId) ∧
      w.chatIdentities.find (fun i => i.platform == platform && i.platformUserId == platformUserId) =
        some i := by
  obtain ⟨i, hi, hplatform, haccount⟩ := h
  refine ⟨i, hi, ⟨hplatform, haccount⟩, Table.find_eq hi (by simp [hplatform, haccount]) ?_⟩
  intro j hj hboth
  refine Table.eq_of_clash hj hi ?_
  simp only [Bool.and_eq_true, beq_iff_eq] at hboth
  simp [Constrained.clash, hboth, hplatform, haccount]

theorem find_no_identity (h : ¬ HasIdentity platform platformUserId w) :
    w.chatIdentities.find (fun i => i.platform == platform && i.platformUserId == platformUserId) =
      none := by
  cases hfind : w.chatIdentities.find fun i =>
      i.platform == platform && i.platformUserId == platformUserId with
  | none => rfl
  | some i =>
      obtain ⟨hi, hboth⟩ := Table.find_spec hfind
      exact absurd ⟨i, hi, by simpa using hboth⟩ h

/-- **Who has an identity is found,** and nothing is done. -/
theorem ends_found {i : ChatIdentity} {r : Except Err ChatIdentity} (s : Supply)
    (hfind : w.chatIdentities.find (fun i =>
      i.platform == platform && i.platformUserId == platformUserId) = some i) :
    (resolveOrCreate env platform platformUserId displayName).Ends (service env) isServed w r w' ↔
      r = .ok i ∧ w' = w := by
  unfold resolveOrCreate
  rw [ends_served]
  simp only [effect, Prog.after_ok, hfind]
  constructor
  · rintro ⟨-, -, hends⟩
    exact hends
  · exact fun hends => ⟨s, rfl, hends⟩

/-- The protected part of a first contact. -/
abbrev attach (d : IdentityCreate) (row : ChatIdentity → AuditRow)
    (handler : Err → Program ChatIdentity) : Program ChatIdentity :=
  Prog.tryCatch (do
    let identity ← await (.identityCreate d)
    await (.auditLogCreate (row identity))
    pure identity) handler

/-- **An identity that nothing stands in the way of** is created and recorded. -/
theorem ends_create {d : IdentityCreate} {row : ChatIdentity → AuditRow}
    {handler : Err → Program ChatIdentity} (husers : ∀ v ∈ w.users, v.email = d.email →
      v.id = d.authUserId) (hnone : ¬ HasIdentity d.platform d.platformUserId w)
    {r : Except Err ChatIdentity} :
    (attach d row handler).Ends (service env) isServed w r w' ↔
      ∃ s : Supply, (Op.identityCreate d).fits s w = true ∧ ∃ users chatIdentities,
        ((∃ v ∈ users, v.id = d.authUserId) ∧
          chatIdentities.rows = w.chatIdentities.rows ++ [chatIdentity d s.id]) ∧
        createIdentity d s.id w = (.ok (chatIdentity d s.id),
          { w with users := users, chatIdentities := chatIdentities }) ∧
        r = .ok (chatIdentity d s.id) ∧
        w' = { w with users := users, chatIdentities := chatIdentities,
                      auditLogs := w.auditLogs ++ [row (chatIdentity d s.id)] } := by
  rw [Prog.ends_tryCatch]
  constructor
  · rintro ⟨a, u, hbody, hhandled⟩
    obtain ⟨s, hfits, hafter⟩ := (ends_served _ _ _).mp hbody
    obtain ⟨users, chatIdentities, heff, hmirror, hrows⟩ := createIdentity_ok husers
      (fun i hi => bne_iff_ne.mp (List.all_eq_true.mp hfits i hi)) hnone
    simp only [effect, heff, Prog.after_ok] at hafter
    obtain ⟨s', -, hdone⟩ := (ends_served _ _ _).mp hafter
    obtain ⟨rfl, rfl⟩ := hdone
    obtain ⟨rfl, rfl⟩ := hhandled
    exact ⟨s, hfits, users, chatIdentities, ⟨hmirror, hrows⟩, heff, rfl, rfl⟩
  · rintro ⟨s, hfits, users, chatIdentities, -, heff, rfl, rfl⟩
    refine ⟨.ok (chatIdentity d s.id), _, (ends_served _ _ _).mpr ⟨s, hfits, ?_⟩, rfl, rfl⟩
    simp only [effect, heff, Prog.after_ok]
    exact (ends_served _ _ _).mpr ⟨s, rfl, rfl, rfl⟩

theorem exists_ends_create {d : IdentityCreate} {row : ChatIdentity → AuditRow}
    {handler : Err → Program ChatIdentity} {s : Supply} (husers : ∀ v ∈ w.users, v.email = d.email →
      v.id = d.authUserId) (hfresh : ∀ i ∈ w.chatIdentities, i.id ≠ s.id)
    (hnone : ¬ HasIdentity d.platform d.platformUserId w) :
    ∃ r w', (attach d row handler).Ends (service env) isServed w r w' := by
  obtain ⟨users, chatIdentities, heff, hdone⟩ := createIdentity_ok husers hfresh hnone
  have hfits : (Op.identityCreate d).fits s w = true := by
    simp only [Op.fits, List.all_eq_true, bne_iff_ne]
    exact hfresh
  exact ⟨_, _, (ends_create husers hnone).mpr
    ⟨s, hfits, users, chatIdentities, hdone, heff, rfl, rfl⟩⟩

/-- A fresh auth user's address is no user's. -/
theorem Rooted.free (hI : Rooted x) {email : String}
    (hfree : ∀ a ∈ World.authUsers x.world, a.email ≠ email) {v : User}
    (hv : v ∈ World.users x.world) : v.email ≠ email := by
  obtain ⟨a, ha, -, hsame⟩ := hI.users v hv
  exact fun hemail => hfree a ha (hsame.trans hemail)

/-- **A first contact that nothing stands in the way of** succeeds. -/
theorem converges_first (hI : Rooted x) {s : Supply} (hfresh : Fresh s.id x.world)
    (hnone : ¬ HasIdentity platform platformUserId x.world)
    (hfree : ∀ a ∈ World.authUsers x.world, a.email ≠ syntheticEmail env platform platformUserId) :
    Converges env platform platformUserId x.world := by
  intro displayName
  have hemail (v : User) (hv : v ∈ World.users x.world)
      (hsame : v.email = syntheticEmail env platform platformUserId) (id : Uuid) : v.id = id :=
    absurd hsame (hI.free hfree hv)
  constructor
  · have hfits : (Op.createUser (syntheticEmail env platform platformUserId)).fits s x.world = true := by
      simp only [Op.fits, Bool.and_eq_true, List.all_eq_true, bne_iff_ne]
      exact ⟨hfresh.1, hfresh.2.1⟩
    obtain ⟨authUsers, hcreate⟩ := createUser_free hfits hfree
    unfold resolveOrCreate
    refine exists_ends_served s rfl ?_
    simp only [effect, Prog.after_ok, find_no_identity hnone]
    refine exists_ends_served s hfits ?_
    simp only [effect, hcreate, Prog.after_ok]
    exact exists_ends_create (fun v hv hsame => hemail v hv hsame _) hfresh.2.2 hnone
  · intro r w' hends
    unfold resolveOrCreate at hends
    obtain ⟨s₀, -, hends⟩ := (ends_served _ _ _).mp hends
    simp only [effect, Prog.after_ok, find_no_identity hnone] at hends
    obtain ⟨s₁, hfits, hends⟩ := (ends_served _ _ _).mp hends
    obtain ⟨authUsers, hcreate⟩ := createUser_free hfits hfree
    simp only [effect, hcreate, Prog.after_ok] at hends
    have hcreated := fun husers hnone => (ends_create husers hnone).mp hends
    obtain ⟨s₂, -, users, chatIdentities, ⟨hmirror, hrows⟩, -, rfl, rfl⟩ :=
      hcreated (fun v hv hsame => hemail v hv hsame _) hnone
    refine ⟨_, rfl, ?_⟩
    exact {
      mem := Table.mem_def.mpr (hrows ▸ List.mem_append_right _ (List.mem_singleton_self _))
      account := ⟨rfl, rfl⟩
      only := fun i hi hplatform haccount => by
        rcases List.mem_append.mp (hrows ▸ Table.mem_def.mp hi) with hi | hi
        · exact absurd ⟨i, hi, hplatform, haccount⟩ hnone
        · exact List.mem_singleton.mp hi
      mirrored := hmirror
      minted := ⟨_, (Table.mem_create hcreate).mpr (.inr rfl), rfl, rfl, fun b hb hsame =>
        ((Table.mem_create hcreate).mp hb).resolve_left fun hold => hfree b hold hsame⟩ }

/-- **Whoever has an identity** gets it. -/
theorem converges_found (hI : Rooted x) (s : Supply)
    (hhas : HasIdentity platform platformUserId x.world) :
    Converges env platform platformUserId x.world := by
  intro displayName
  obtain ⟨i, hi, ⟨rfl, rfl⟩, hfind⟩ := find_identity hhas
  refine ⟨⟨_, _, (ends_found s hfind).mpr ⟨rfl, rfl⟩⟩, fun r w' hends => ?_⟩
  obtain ⟨rfl, rfl⟩ := (ends_found s hfind).mp hends
  obtain ⟨hmirror, a, ha, hid, hemail⟩ := hI.identities i hi
  refine ⟨i, rfl, hi, ⟨rfl, rfl⟩, fun j hj hplatform haccount => ?_, hmirror, a, ha, hid, hemail,
    fun b hb hsame => ?_⟩
  · exact Table.eq_of_clash hj hi (by simp [Constrained.clash, hplatform, haccount])
  · exact Table.eq_of_clash hb ha (by simp [Constrained.clash, hsame, hemail])

/-- What Supabase says to a second auth user with an address. -/
def alreadyRegistered : Err := .internal
  "Could not create chat auth user: A user with this email address has already been registered"

/-- **An orphaned account stays without identity:** its auth user cannot be minted again. -/
theorem orphaned_fails {s : Supply} (hfresh : Fresh s.id w)
    (horphaned : Orphaned env platform platformUserId w) :
    (resolveOrCreate env platform platformUserId displayName).Ends (service env) isServed w
      (.error alreadyRegistered) w := by
  obtain ⟨⟨a, ha, hemail⟩, hnone⟩ := horphaned
  have hrefused : w.authUsers.create ⟨s.id, syntheticEmail env platform platformUserId, true⟩ = none := by
    by_contra hsome
    obtain ⟨authUsers, hcreate⟩ := Option.ne_none_iff_exists'.mp hsome
    have hclash := Table.create_no_clash hcreate ha
    simp [Constrained.clash, hemail] at hclash
  have hfits : (Op.createUser (syntheticEmail env platform platformUserId)).fits s w = true := by
    simp only [Op.fits, Bool.and_eq_true, List.all_eq_true, bne_iff_ne]
    exact ⟨hfresh.1, hfresh.2.1⟩
  unfold resolveOrCreate
  refine (ends_served _ _ _).mpr ⟨s, rfl, ?_⟩
  simp only [effect, Prog.after_ok, find_no_identity hnone]
  refine (ends_served _ _ _).mpr ⟨s, hfits, ?_⟩
  simp only [effect, hrefused, Prog.after_error, alreadyRegistered, and_self]

/-- **Exactly the orphaned accounts** do not converge. -/
theorem converges_iff (hI : Rooted x) {s : Supply} (hfresh : Fresh s.id x.world) :
    Converges env platform platformUserId x.world ↔
      ¬ Orphaned env platform platformUserId x.world := by
  constructor
  · intro hconverges horphaned
    obtain ⟨identity, heq, -⟩ := (hconverges none).2 _ _ (orphaned_fails hfresh horphaned)
    cases heq
  · intro hno
    by_cases hhas : HasIdentity platform platformUserId x.world
    · exact converges_found hI s hhas
    · exact converges_first hI hfresh hhas fun a ha hemail => hno ⟨⟨a, ha, hemail⟩, hhas⟩

/-- **First contact converges.** In every run in which whoever mints an auth user goes on to its
identity, once all calls have ended or were cut off a retry succeeds for every account, and leaves it its
one identity; and after any run of first contacts whatever, a retry does so exactly for the accounts that
are not orphaned. -/
theorem contact_converges (env : Env) {x : Config (service env)} {s : Supply}
    (hfresh : Fresh s.id x.world) (platform : ChatPlatform) (platformUserId : String) :
    (Follows (recoverable env) ⟨World.initial, []⟩ x → x.atRest = true →
      Converges env platform platformUserId x.world) ∧
    (Follows (contacts env) ⟨World.initial, []⟩ x →
      (Converges env platform platformUserId x.world ↔
        ¬ Orphaned env platform platformUserId x.world)) :=
  ⟨fun h hrest => (converges_iff (covered_of_follows h).1 hfresh).mpr (not_orphaned h hrest),
    fun h => converges_iff (rooted_of_follows h) hfresh⟩

namespace Demo

/-- The first contact of an account, of which the auth user is minted; its call is then cut off. -/
def stranding : List (Label (service settings)) :=
  .arrive (.message .telegram "42" none none) :: goes 0 2 ++ [.crash 0]

/-- The first contact of an account, and all of it. -/
def contacting : List (Label (service settings)) :=
  .arrive (.message .telegram "42" none none) :: goes 0 4

/-- Nobody has this identifier. -/
def isFresh (id : Uuid) (w : World) : Bool :=
  (w.authUsers.rows.all fun a => a.id != id) && (w.users.rows.all fun v => v.id != id) &&
    w.chatIdentities.rows.all fun i => i.id != id

theorem isFresh_spec {id : Uuid} {w : World} (h : isFresh id w = true) : Fresh id w := by
  simp only [isFresh, Bool.and_eq_true, List.all_eq_true, bne_iff_ne] at h
  exact ⟨h.1.1, h.1.2, h.2⟩

end Demo

set_option maxRecDepth 20000 in
/-- **An account whose first contact was cut off** between its auth user and its identity gets none. -/
theorem contact_stuck : ¬ ∀ (env : Env) (x : Config (service env)),
    Follows (contacts env) ⟨World.initial, []⟩ x → x.atRest = true →
      ∀ platform platformUserId, Converges env platform platformUserId x.world := by
  intro hall
  have hrun : ((Config.follow (contacts Demo.settings) Demo.stranding ⟨World.initial, []⟩).map fun x =>
      x.atRest && Demo.isFresh Demo.webBorn x.world &&
        decide ((World.authUsers x.world).rows = [⟨Demo.chatBorn, "chat+telegram-42@chat.example", true⟩] ∧
          (World.chatIdentities x.world).rows = [])) = some true := by decide
  obtain ⟨x, hx, htest⟩ := exists_of_follow hrun
  simp only [Bool.and_eq_true, decide_eq_true_eq] at htest
  obtain ⟨⟨hrest, hfresh⟩, hauth, hnone⟩ := htest
  have horphaned : Orphaned Demo.settings .telegram "42" x.world := by
    refine ⟨⟨_, Table.mem_def.mpr (hauth ▸ List.mem_singleton_self _), by decide⟩, ?_⟩
    rintro ⟨i, hi, -⟩
    rw [Table.mem_def, hnone] at hi
    cases hi
  obtain ⟨identity, heq, -⟩ := (hall _ x hx hrest .telegram "42" none).2 _ _
    (orphaned_fails (s := ⟨Demo.webBorn, ""⟩) (Demo.isFresh_spec hfresh) horphaned)
  cases heq

set_option maxRecDepth 20000 in
/-- After a first contact that nothing disturbs, every account converges. -/
theorem contact_converges_undisturbed : ∃ x : Config (service Demo.settings),
    (Follows (recoverable Demo.settings) ⟨World.initial, []⟩ x ∧ x.atRest = true) ∧
    Converges Demo.settings .telegram "42" x.world ∧ Converges Demo.settings .x "7" x.world := by
  have hrun : ((Config.follow (recoverable Demo.settings) Demo.contacting ⟨World.initial, []⟩).map
      fun x => x.atRest && Demo.isFresh Demo.webBorn x.world) = some true := by decide
  obtain ⟨x, hx, htest⟩ := exists_of_follow hrun
  obtain ⟨hrest, hfresh⟩ := Bool.and_eq_true_iff.mp htest
  exact ⟨x, ⟨hx, hrest⟩,
    (contact_converges _ (s := ⟨Demo.webBorn, ""⟩) (Demo.isFresh_spec hfresh) _ _).1 hx hrest,
    (contact_converges _ (s := ⟨Demo.webBorn, ""⟩) (Demo.isFresh_spec hfresh) _ _).1 hx hrest⟩

end Meduman.Linking
