import Meduman.Model.Sellers

/-!
# One destination per seller

Onboarding refuses a second destination by a check on a profile it reads early; the bank, the payment
provider and an update without condition follow.

* `onboarding` : a call that has read the profile, and has yet to write its destination
* `inTurn` : a seller's profile is read only while no call for the seller is onboarding
* `Promise` : what a call knows of its past when it is about to do something
* `Turns` : the invariant
* **`one_destination`** : in turn, one call succeeds, and its destination stays
* `destination_repointed` : out of turn, a later call repoints it
-/

set_option autoImplicit false

namespace Meduman.Sellers

open Effect

abbrev Hist := History Op.Ans Err

/-- What follows the read of the profile, as far as the update. -/
def Op.onboards : Op → Bool
  | sellerProfileCreate _ | resolveAccount .. | createTransferRecipient .. | sellerProfileUpdate .. =>
      true
  | _ => false

/-- The call has read the profile, and has yet to write its destination. -/
def onboarding (p : Process service) : Bool :=
  match p.prog with
  | some (.call op _) => op.onboards
  | _ => false

/-- A seller's profile is read only while no call for the seller is onboarding. -/
def inTurn : Policy service := fun x l =>
  match l with
  | .perform i _ => match x.pending i with
      | some (_, ⟨.sellerProfileFindUnique userId, _⟩) =>
          x.procs.all fun q => !(onboarding q && q.call.seller == userId)
      | _ => true
  | _ => true

/-- The seller has a destination. -/
def ready (s : SellerProfile) : Bool := (truthy s.providerRecipientCode).isSome

/-- The call ended well. -/
def Succeeded (p : Process service) : Prop := ∃ profile, p.prog = some (.done (.ok profile))

/-- The destination is the one this call gave, resolved and created. -/
structure ComesFrom (c : Call) (h : Hist) (s : SellerProfile) : Prop where
  bankCode : s.settlementBankCode = some c.dto.bankCode
  accountLast4 : s.settlementAccountLast4 = some (lastFour c.dto.accountNumber)
  created : ∃ name code, s.settlementAccountName = some name ∧ s.providerRecipientCode = some code ∧
    ⟨.resolveAccount c.dto.accountNumber c.dto.bankCode, .ok name⟩ ∈ h ∧
    ⟨.createTransferRecipient name c.dto.accountNumber c.dto.bankCode, .ok code⟩ ∈ h

/-! ## What a call promises -/

variable {c : Call} {h : Hist} {u w : World} {op : Op} {fate : Fate String} {a : Except Err op.Ans}

/-- What is written is what this call gave, resolved and created. -/
structure Stores (c : Call) (h : Hist) (d : RecipientUpdate) : Prop where
  bankCode : d.settlementBankCode = c.dto.bankCode
  accountLast4 : d.settlementAccountLast4 = lastFour c.dto.accountNumber
  resolved : ⟨.resolveAccount c.dto.accountNumber c.dto.bankCode, .ok d.settlementAccountName⟩ ∈ h
  created : ⟨.createTransferRecipient d.settlementAccountName c.dto.accountNumber c.dto.bankCode,
    .ok d.providerRecipientCode⟩ ∈ h
  nonempty : d.providerRecipientCode ≠ ""

/-- The profile was just read, and had no destination; or was just created; or the account was just
resolved, or the recipient created. -/
def Entered (c : Call) : Hist → Prop
  | ⟨.sellerProfileFindUnique userId, .ok found⟩ :: _ =>
      userId = c.seller ∧ ∀ s, found = some s → ready s = false
  | ⟨op, _⟩ :: _ => op.onboards = true ∧ ∀ userId d, op ≠ .sellerProfileUpdate userId d
  | [] => False

/-- What a call knows when it is about to do something. -/
def Promise (c : Call) (h : Hist) : Op → Prop
  | .sellerProfileFindUnique userId => userId = c.seller
  | .sellerProfileUpdate userId d => userId = c.seller ∧ Entered c h ∧ Stores c h d
  | op => op.onboards = true → Entered c h

/-- A call that ends well has written its destination. -/
def Wrote (c : Call) (r : Except Err SellerProfile) (h : Hist) : Prop :=
  ∀ profile, r = .ok profile → ∃ d s, ⟨.sellerProfileUpdate c.seller d, .ok s⟩ ∈ h ∧ Stores c h d

/-- The answers that can come: a recipient code is not empty. -/
def Possible (e : Event Op.Ans Err) : Prop :=
  ∀ name account bank code, e = ⟨.createTransferRecipient name account bank, .ok code⟩ → code ≠ ""

theorem possible_exec (he : backend.exec op fate u = some (a, w)) : Possible ⟨op, a⟩ := by
  rintro name account bank code heq
  cases heq
  obtain ⟨s, hfits, heff⟩ := Backend.exec_ok he
  obtain rfl : s = code := Except.ok.inj (Prod.mk.inj heff).1
  simpa [backend, Op.fits] using hfits

theorem Stores.mono {d : RecipientUpdate} (hd : Stores c h d) (e : Event Op.Ans Err) :
    Stores c (e :: h) d :=
  ⟨hd.bankCode, hd.accountLast4, List.mem_cons_of_mem _ hd.resolved, List.mem_cons_of_mem _ hd.created,
    hd.nonempty⟩

/-- An onboarding from the profile it goes on with. -/
theorem onboard_along {s : SellerProfile} (hentered : ready s = false → Entered c h) :
    (if ready s then Prog.throw (.conflict "A payout destination already exists for this seller")
    else do
      let accountName ← await (.resolveAccount c.dto.accountNumber c.dto.bankCode)
      let recipientCode ← await
        (.createTransferRecipient accountName c.dto.accountNumber c.dto.bankCode)
      let updated ← await (.sellerProfileUpdate c.seller
        { providerRecipientCode := recipientCode
          settlementBankCode := c.dto.bankCode
          settlementAccountLast4 := lastFour c.dto.accountNumber
          settlementAccountName := accountName })
      await (.auditLogCreate
        (recipientAudit c.seller c.dto.bankCode c.dto.accountNumber accountName))
      pure updated : Program SellerProfile).Along Possible (Promise c) (Wrote c) h := by
  cases hready : ready s with
  | true => exact nofun
  | false =>
      rw [if_neg Bool.false_ne_true, along_perform_bind]
      refine ⟨fun _ => hentered hready, nofun, fun name _ => ?_⟩
      rw [along_perform_bind]
      refine ⟨fun _ => ⟨rfl, nofun⟩, nofun, fun code hcode => ?_⟩
      have hstores : Stores c
          (⟨.createTransferRecipient name c.dto.accountNumber c.dto.bankCode, .ok code⟩ ::
            ⟨.resolveAccount c.dto.accountNumber c.dto.bankCode, .ok name⟩ :: h)
          { providerRecipientCode := code
            settlementBankCode := c.dto.bankCode
            settlementAccountLast4 := lastFour c.dto.accountNumber
            settlementAccountName := name } :=
        ⟨rfl, rfl, List.mem_cons_of_mem _ List.mem_cons_self, List.mem_cons_self,
          hcode _ _ _ _ rfl⟩
      rw [along_perform_bind]
      refine ⟨⟨rfl, ⟨rfl, nofun⟩, hstores⟩, nofun, fun updated _ => ?_⟩
      rw [along_perform_bind]
      refine ⟨nofun, nofun, fun _ _ => ?_⟩
      rintro profile -
      exact ⟨_, updated, List.mem_cons_of_mem _ List.mem_cons_self, (hstores.mono _).mono _⟩

theorem createTransferRecipient_along :
    (createTransferRecipient c.seller c.dto).Along Possible (Promise c) (Wrote c) h := by
  unfold createTransferRecipient getOrCreate
  rw [along_bind, along_perform_bind]
  refine ⟨rfl, nofun, fun found _ => ?_⟩
  cases found with
  | some s => exact onboard_along fun hready => ⟨rfl, fun _ hs => Option.some.inj hs ▸ hready⟩
  | none =>
      refine (along_perform _ _).mpr ⟨fun _ => ⟨rfl, nofun⟩, nofun, fun s _ => ?_⟩
      exact onboard_along fun _ => ⟨rfl, nofun⟩

/-- **Every call keeps its promise.** -/
theorem code_along : (code c).Along Possible (Promise c) (Wrote c) [] := by
  unfold code
  split
  · unfold assertOwnedSeller
    rw [along_bind, along_perform_bind]
    refine ⟨nofun, nofun, fun found _ => ?_⟩
    cases found with
    | none => exact nofun
    | some user => exact createTransferRecipient_along
  · exact createTransferRecipient_along

/-! ## What one operation does to the profiles -/

/-- The destination is written over what was there. -/
def overwrite (userId : Uuid) (d : RecipientUpdate) (s : SellerProfile) : SellerProfile :=
  if isOf userId s then d.apply s else s

/-- An operation leaves the profiles alone, creates an empty one or writes a destination. -/
theorem profiles_exec (he : backend.exec op fate u = some (a, w)) :
    w.sellerProfiles = u.sellerProfiles ∨
      (∃ userId, w.sellerProfiles.rows = u.sellerProfiles.rows ++ [{ userId := userId }]) ∨
      ∃ userId d, op = .sellerProfileUpdate userId d ∧
        w.sellerProfiles.rows = u.sellerProfiles.rows.map (overwrite userId d) := by
  rcases Backend.exec_cases he with ⟨rfl, -⟩ | ⟨s, -, -, rfl, -⟩
  · exact .inl rfl
  · cases op with
    | sellerProfileCreate userId =>
        simp only [backend, effect, createProfile]
        split
        · exact .inl rfl
        · split
          · exact .inl rfl
          · exact .inr (.inl ⟨userId, Table.rows_create ‹_›⟩)
    | sellerProfileUpdate userId d =>
        simp only [backend, effect, updateProfile]
        split
        · exact .inl rfl
        · split
          · exact .inl rfl
          · exact .inr (.inr ⟨userId, d, rfl, Table.rows_update ‹_›⟩)
    | _ => exact .inl rfl

/-- A destination that was written is there. -/
theorem update_ok {userId : Uuid} {d : RecipientUpdate} {s : SellerProfile}
    (he : backend.exec (.sellerProfileUpdate userId d) fate u = some (.ok s, w)) :
    d.apply { userId := userId } ∈ w.sellerProfiles := by
  obtain ⟨_, -, heff⟩ := Backend.exec_ok he
  simp only [backend, effect, updateProfile] at heff
  split at heff
  · cases heff
  · rename_i p hfind
    split at heff
    · cases heff
    · rename_i sellerProfiles hupdate
      cases heff
      obtain ⟨hp, hid⟩ := Table.find_spec hfind
      have hmem := Table.mem_update_of hupdate hp hid
      rw [isOf, beq_iff_eq] at hid
      subst hid
      exact hmem

/-- What a read of the profile finds. -/
theorem read_ok {userId : Uuid} {found : Option SellerProfile}
    (he : backend.exec (.sellerProfileFindUnique userId) fate u = some (.ok found, w)) :
    found = u.sellerProfiles.find (isOf userId) := by
  obtain ⟨_, -, heff⟩ := Backend.exec_ok he
  exact (Except.ok.inj (Prod.mk.inj heff).1).symm

theorem profile_eq {s s' : SellerProfile} (hs : s ∈ u.sellerProfiles) (hs' : s' ∈ u.sellerProfiles)
    (h : s.userId = s'.userId) : s = s' :=
  Table.eq_of_clash hs hs' (by simp [Constrained.clash, h])

/-! ## What one step does -/

variable {x y : Config service} {l : Label service} {i j : Nat} {p q : Process service}

/-- The seller has no destination yet. -/
def Unset (userId : Uuid) (w : World) : Prop :=
  ∀ s ∈ w.sellerProfiles, s.userId = userId → ready s = false

theorem promise_of (hx : Reachable x) (hp : p ∈ x.procs)
    {k : Except Err op.Ans → Program SellerProfile} (hk : p.prog = some (.call op k)) :
    Promise p.call p.hist op :=
  (Reaches.along (V := service) (P := Possible) (J := Promise) (R := Wrote) possible_exec
    (fun _ => code_along) hx p hp _ hk).1

theorem onboarding_iff : onboarding p = true ↔ ∃ op k, p.prog = some (.call op k) ∧
    op.onboards = true := by
  unfold onboarding
  constructor
  · intro hon
    split at hon
    · exact ⟨_, _, ‹_›, hon⟩
    · cases hon
  · rintro ⟨op, k, hk, hop⟩
    rw [hk]
    exact hop

/-- A call that is onboarding has just read, created, resolved or registered. -/
theorem entered_of (hx : Reachable x) (hp : p ∈ x.procs) (hon : onboarding p = true) :
    Entered p.call p.hist := by
  obtain ⟨op, k, hk, hop⟩ := onboarding_iff.mp hon
  have hpromise := promise_of hx hp hk
  cases op with
  | sellerProfileUpdate userId d => exact hpromise.2.1
  | sellerProfileFindUnique userId => cases hop
  | _ => exact hpromise hop

/-- **A step leaves the profiles alone,** creates an empty one or is the update of an onboarding. -/
theorem profiles_step (hx : Reachable x) (hs : x.Step y l) :
    World.sellerProfiles y.world = World.sellerProfiles x.world ∨
    (∃ userId, (World.sellerProfiles y.world).rows =
      (World.sellerProfiles x.world).rows ++ [{ userId := userId }]) ∨
    ∃ i fate p d, ∃ k : Except Err SellerProfile → Program SellerProfile, ∃ a,
      l = .perform i fate ∧ x.procs[i]? = some p ∧
      p.prog = some (.call (.sellerProfileUpdate p.call.seller d) k) ∧ Stores p.call p.hist d ∧
      y.procs[i]? = some ⟨p.call, ⟨.sellerProfileUpdate p.call.seller d, a⟩ :: p.hist, some (k a)⟩ ∧
      (World.sellerProfiles y.world).rows =
        (World.sellerProfiles x.world).rows.map (overwrite p.call.seller d) := by
  rcases hs.world_cases with hw | ⟨i, fate, p, op, k, a, hl, hp, hk, he, hy⟩ | ⟨m, -, hm⟩
  · exact .inl (congrArg _ hw)
  · replace he : backend.exec op fate x.world = some (a, y.world) := he
    rcases profiles_exec he with hsame | hcreated | ⟨userId, d, rfl, hrows⟩
    · exact .inl hsame
    · exact .inr (.inl hcreated)
    · obtain ⟨rfl, -, hstores⟩ := promise_of hx (List.mem_of_getElem? hp) hk
      exact .inr (.inr ⟨i, fate, p, d, k, a, hl, hp, hk, hstores, hy, hrows⟩)
  · cases m with
    | signUp user =>
        obtain ⟨users, -, hw⟩ := Option.map_eq_some_iff.mp hm
        exact .inl (congrArg World.sellerProfiles hw).symm
    | openProfile userId =>
        obtain ⟨sellerProfiles, hcreate, hw⟩ := Option.map_eq_some_iff.mp hm
        refine .inr (.inl ⟨userId, ?_⟩)
        rw [← hw]
        exact Table.rows_create hcreate

/-- A call that is onboarding was so before the step, or has just found its seller without
destination. -/
theorem onboarding_step (hy : Reachable y) (hs : x.Step y l) (hq : y.procs[j]? = some q)
    (hon : onboarding q = true) :
    (∃ p, x.procs[j]? = some p ∧ onboarding p = true ∧ p.call = q.call) ∨
    ∃ p fate, ∃ k : Except Err (Option SellerProfile) → Program SellerProfile,
      x.procs[j]? = some p ∧ l = .perform j fate ∧
      p.prog = some (.call (.sellerProfileFindUnique q.call.seller) k) ∧
      Unset q.call.seller x.world := by
  have hentered := entered_of hy (List.mem_of_getElem? hq) hon
  obtain ⟨op', k', hk', -⟩ := onboarding_iff.mp hon
  rcases hs.live_cases hq (by rw [hk']; exact Option.some_ne_none _) with
    hbefore | ⟨c, rfl⟩ | ⟨p, op, k, fate, a, hp, hk, rfl, he, rfl⟩
  · exact .inl ⟨q, hbefore, hon, rfl⟩
  · exact hentered.elim
  · cases op with
    | sellerProfileFindUnique userId =>
        cases a with
        | error e => exact nomatch hentered.1
        | ok found =>
            obtain ⟨hid, hfound⟩ := hentered
            replace hid : userId = p.call.seller := hid
            subst hid
            refine .inr ⟨p, fate, k, hp, rfl, hk, fun s hmem hid => ?_⟩
            have hread : found = (World.sellerProfiles x.world).find (isOf p.call.seller) := read_ok he
            refine hfound s (hread.trans (Table.find_eq hmem (beq_iff_eq.mpr hid) ?_))
            exact fun s' hs' hid' => profile_eq hs' hmem ((beq_iff_eq.mp hid').trans hid.symm)
    | sellerProfileUpdate userId d => exact absurd rfl (hentered.2 userId d)
    | _ => exact .inl ⟨p, hp, onboarding_iff.mpr ⟨_, k, hk, hentered.1⟩, rfl⟩

/-! ## The invariant -/

/-- What this call wrote is its seller's destination. -/
def Settled (p : Process service) (w : World) : Prop :=
  ∀ d s, ⟨.sellerProfileUpdate p.call.seller d, .ok s⟩ ∈ p.hist →
    d.apply { userId := p.call.seller } ∈ w.sellerProfiles

/-- This call was told that it wrote its destination. -/
def HasWritten (p : Process service) : Prop :=
  ∃ d s, ⟨.sellerProfileUpdate p.call.seller d, .ok s⟩ ∈ p.hist

/-- One call for a seller is onboarding, and then the seller has no destination; every destination comes
from one call, and is there once its call wrote it. -/
structure Turns (x : Config service) : Prop where
  alone : ∀ {i j : Nat} {p q : Process service}, x.procs[i]? = some p → x.procs[j]? = some q →
    onboarding p = true → onboarding q = true → p.call.seller = q.call.seller → i = j
  unset : ∀ p ∈ x.procs, onboarding p = true → Unset p.call.seller x.world
  origin : ∀ s ∈ World.sellerProfiles x.world, ready s = true →
    ∃ p ∈ x.procs, p.call.seller = s.userId ∧ ComesFrom p.call p.hist s
  settled : ∀ p ∈ x.procs, Settled p x.world
  once : ∀ {i j : Nat} {p q : Process service}, x.procs[i]? = some p → x.procs[j]? = some q →
    HasWritten p → HasWritten q → p.call.seller = q.call.seller → i = j

theorem turns_initial : Turns ⟨World.initial, []⟩ where
  alone hp := by cases hp
  unset p hp := absurd hp List.not_mem_nil
  origin s hs := absurd hs List.not_mem_nil
  settled p hp := absurd hp List.not_mem_nil
  once hp := by cases hp

/-- Who is about to write a destination is onboarding. -/
theorem onboarding_of_update {d : RecipientUpdate} {userId : Uuid}
    {k : Except Err SellerProfile → Program SellerProfile}
    (hk : p.prog = some (.call (.sellerProfileUpdate userId d) k)) : onboarding p = true :=
  onboarding_iff.mpr ⟨.sellerProfileUpdate userId d, k, hk, rfl⟩

/-- **A destination stays.** -/
theorem ready_step (hx : Reachable x) (hI : Turns x) (hs : x.Step y l) {s : SellerProfile}
    (hmem : s ∈ World.sellerProfiles x.world) (hready : ready s = true) :
    s ∈ World.sellerProfiles y.world := by
  rcases profiles_step hx hs with hsame | ⟨userId, hrows⟩ |
    ⟨i, fate, p, d, k, a, -, hp, hk, -, -, hrows⟩
  · exact hsame ▸ hmem
  · exact Table.mem_def.mpr (hrows ▸ List.mem_append_left _ hmem)
  · have hunset := hI.unset p (List.mem_of_getElem? hp) (onboarding_of_update hk)
    have hother : s.userId ≠ p.call.seller := fun hid => by
      rw [hunset s hmem hid] at hready
      cases hready
    refine Table.mem_def.mpr (hrows ▸ List.mem_map.mpr ⟨s, hmem, if_neg ?_⟩)
    simpa [isOf] using hother

/-- The seller of a call that is onboarding has no destination after the step. -/
theorem unset_step (hx : Reachable x) (hy : Reachable y) (hI : Turns x) (hs : x.Step y l)
    (hq : y.procs[j]? = some q) (hon : onboarding q = true) : Unset q.call.seller y.world := by
  have hbefore : Unset q.call.seller x.world := by
    rcases onboarding_step hy hs hq hon with ⟨p, hp, honp, hcall⟩ | ⟨p, fate, k, -, -, -, hunset⟩
    · exact hcall ▸ hI.unset p (List.mem_of_getElem? hp) honp
    · exact hunset
  rcases profiles_step hx hs with hsame | ⟨userId, hrows⟩ |
    ⟨i, fate, p, d, k, a, hl, hp, hk, -, hpy, hrows⟩
  · intro s hmem
    exact hbefore s (hsame ▸ hmem)
  · intro s hmem hid
    rcases List.mem_append.mp (hrows ▸ Table.mem_def.mp hmem) with hmem | hmem
    · exact hbefore s hmem hid
    · rw [List.mem_singleton.mp hmem]
      rfl
  · -- the update is another seller's: whoever writes is no longer onboarding
    have hother : q.call.seller ≠ p.call.seller := fun hsame => by
      have hij : i = j := by
        rcases onboarding_step hy hs hq hon with ⟨p', hp', honp', hcall⟩ |
          ⟨p', fate', k', hp', hl', hk', -⟩
        · exact hI.alone hp hp' (onboarding_of_update hk) honp' (hsame.symm.trans (hcall ▸ rfl))
        · rw [hl] at hl'
          cases hl'
          rfl
      subst hij
      cases hq.symm.trans hpy
      exact absurd rfl ((entered_of hy (List.mem_of_getElem? hpy) hon).2 _ d)
    intro s hmem hid
    obtain ⟨s₀, hs₀, rfl⟩ := List.mem_map.mp (hrows ▸ Table.mem_def.mp hmem)
    unfold overwrite at hid ⊢
    split
    · rename_i hsel
      rw [if_pos hsel] at hid
      exact absurd (hid.symm.trans (beq_iff_eq.mp hsel)) hother
    · rename_i hsel
      rw [if_neg hsel] at hid
      exact hbefore s₀ hs₀ hid

/-- Where a profile is read in turn, no call for its seller is onboarding. -/
theorem nobody_onboards {fate : Fate String} {userId : Uuid}
    {k : Except Err (Option SellerProfile) → Program SellerProfile}
    (hP : inTurn x (.perform j fate) = true) (hp : x.procs[j]? = some p)
    (hk : p.prog = some (.call (.sellerProfileFindUnique userId) k)) :
    ∀ q ∈ x.procs, onboarding q = true → q.call.seller ≠ userId := by
  intro q hq hon hseller
  have hpending : x.pending j = some (p, ⟨.sellerProfileFindUnique userId, k⟩) :=
    Config.pending_eq hp hk
  simp only [inTurn, hpending] at hP
  have hnot := List.all_eq_true.mp hP q hq
  simp [hon, hseller] at hnot

theorem alone_step (hy : Reachable y) (hI : Turns x) (hP : inTurn x l = true) (hs : x.Step y l)
    (hp : y.procs[i]? = some p) (hq : y.procs[j]? = some q) (hpon : onboarding p = true)
    (hqon : onboarding q = true) (hseller : p.call.seller = q.call.seller) : i = j := by
  rcases onboarding_step hy hs hp hpon with ⟨p', hp', hpon', hpcall⟩ | ⟨p', fate, k, hp', rfl, hk, -⟩
  · rcases onboarding_step hy hs hq hqon with
      ⟨q', hq', hqon', hqcall⟩ | ⟨q', fate, k, hq', rfl, hk, -⟩
    · exact hI.alone hp' hq' hpon' hqon' (by rw [hpcall, hqcall, hseller])
    · exact absurd (by rw [hpcall, hseller])
        (nobody_onboards hP hq' hk p' (List.mem_of_getElem? hp') hpon')
  · rcases onboarding_step hy hs hq hqon with ⟨q', hq', hqon', hqcall⟩ | ⟨q', fate', k', -, hl, -, -⟩
    · exact absurd (by rw [hqcall, hseller])
        (nobody_onboards hP hp' hk q' (List.mem_of_getElem? hq') hqon')
    · cases hl
      rfl

theorem ComesFrom.mono {c : Call} {h : Hist} {s : SellerProfile} (hs : ComesFrom c h s)
    (e : Event Op.Ans Err) : ComesFrom c (e :: h) s := by
  obtain ⟨name, code, hname, hcode, hresolved, hcreated⟩ := hs.created
  exact ⟨hs.bankCode, hs.accountLast4, name, code, hname, hcode, List.mem_cons_of_mem _ hresolved,
    List.mem_cons_of_mem _ hcreated⟩

/-- What a call stores comes from it. -/
theorem Stores.comesFrom {c : Call} {h : Hist} {d : RecipientUpdate} (hd : Stores c h d)
    (s : SellerProfile) : ComesFrom c h (d.apply s) where
  bankCode := congrArg some hd.bankCode
  accountLast4 := congrArg some hd.accountLast4
  created := ⟨_, _, rfl, rfl, hd.resolved, hd.created⟩

theorem Stores.ready {c : Call} {h : Hist} {d : RecipientUpdate} (hd : Stores c h d)
    (s : SellerProfile) : ready (d.apply s) = true := by
  simp [Sellers.ready, RecipientUpdate.apply, truthy, hd.nonempty]

theorem origin_step (hx : Reachable x) (hI : Turns x) (hs : x.Step y l) {s : SellerProfile}
    (hmem : s ∈ World.sellerProfiles y.world) (hready : ready s = true) :
    ∃ p ∈ y.procs, p.call.seller = s.userId ∧ ComesFrom p.call p.hist s := by
  have hold : s ∈ World.sellerProfiles x.world →
      ∃ p ∈ y.procs, p.call.seller = s.userId ∧ ComesFrom p.call p.hist s := fun hmem =>
    hs.exists_hist (φ := fun c h => c.seller = s.userId ∧ ComesFrom c h s)
      (fun c e h hφ => ⟨hφ.1, hφ.2.mono e⟩) (hI.origin s hmem hready)
  rcases profiles_step hx hs with hsame | ⟨userId, hrows⟩ |
    ⟨i, fate, p, d, k, a, -, -, -, hstores, hpy, hrows⟩
  · exact hold (hsame ▸ hmem)
  · rcases List.mem_append.mp (hrows ▸ Table.mem_def.mp hmem) with hmem | hmem
    · exact hold hmem
    · rw [List.mem_singleton.mp hmem] at hready
      cases hready
  · obtain ⟨s₀, hs₀, rfl⟩ := List.mem_map.mp (hrows ▸ Table.mem_def.mp hmem)
    unfold overwrite at hold ⊢
    split
    · rename_i hsel
      exact ⟨_, List.mem_of_getElem? hpy, (beq_iff_eq.mp hsel).symm,
        (hstores.comesFrom s₀).mono _⟩
    · rename_i hsel
      rw [if_neg hsel] at hold
      exact hold hs₀

/-- A call that was told so had written before the step, or did in it. -/
theorem written_step (hs : x.Step y l) (hq : y.procs[j]? = some q) {d : RecipientUpdate}
    {s : SellerProfile} (he : ⟨.sellerProfileUpdate q.call.seller d, .ok s⟩ ∈ q.hist) :
    (∃ p, x.procs[j]? = some p ∧ p.call = q.call ∧ p.hist <:+ q.hist ∧
      ⟨.sellerProfileUpdate q.call.seller d, .ok s⟩ ∈ p.hist) ∨
    ∃ p fate, ∃ k : Except Err SellerProfile → Program SellerProfile, x.procs[j]? = some p ∧
      l = .perform j fate ∧ p.prog = some (.call (.sellerProfileUpdate q.call.seller d) k) ∧
      p.call = q.call ∧ backend.exec (.sellerProfileUpdate q.call.seller d) fate x.world =
        some (.ok s, y.world) := by
  rcases hs.hist_cases hq with ⟨p, hp, hcall, hhist⟩ | hnil | ⟨p, op, k, fate, a, hp, hk, hl, hexec,
    hcall, hhist⟩
  · exact .inl ⟨p, hp, hcall.symm, hhist ▸ List.suffix_refl _, hhist ▸ he⟩
  · rw [hnil] at he
    cases he
  · rw [hhist] at he
    rcases List.mem_cons.mp he with heq | he
    · cases heq
      exact .inr ⟨p, fate, k, hp, hl, hk, hcall.symm, hexec⟩
    · exact .inl ⟨p, hp, hcall.symm, hhist ▸ List.suffix_cons _ _, he⟩

/-- What a call wrote, it gave, resolved and created. -/
theorem stores_of (hx : Reachable x) : ∀ p ∈ x.procs, ∀ userId d a,
    ⟨.sellerProfileUpdate userId d, a⟩ ∈ p.hist → Stores p.call p.hist d := by
  refine Reaches.histories (V := service)
    (J := fun c h => ∀ e t, h = e :: t → ∀ userId d a, e = ⟨.sellerProfileUpdate userId d, a⟩ →
      Stores c t d)
    (T := fun c h => ∀ userId d a, ⟨.sellerProfileUpdate userId d, a⟩ ∈ h → Stores c h d) ?_ ?_ ?_ hx
  · rintro x hx p hp op k hk a e t heq userId d b rfl
    cases heq
    exact (promise_of hx hp hk).2.2
  · exact fun c userId d a he => absurd he List.not_mem_nil
  · intro c e h hlast ih userId d a he
    rcases List.mem_cons.mp he with rfl | he
    · exact (hlast _ _ rfl _ _ _ rfl).mono _
    · exact (ih _ _ _ he).mono _

theorem settled_step (hx : Reachable x) (hI : Turns x) (hs : x.Step y l)
    (hq : y.procs[j]? = some q) : Settled q y.world := by
  intro d s he
  rcases written_step hs hq he with ⟨p, hp, hcall, -, he⟩ | ⟨p, fate, k, -, -, -, -, hexec⟩
  · have hmem := List.mem_of_getElem? hp
    rw [← hcall] at he ⊢
    exact ready_step hx hI hs (hI.settled p hmem d s he) ((stores_of hx p hmem _ d _ he).ready _)
  · exact update_ok hexec

/-- Who has written found its seller without destination, so that no other had written. -/
theorem not_written (hx : Reachable x) (hI : Turns x) (hp : p ∈ x.procs) (hq : q ∈ x.procs)
    (hon : onboarding p = true) (hseller : q.call.seller = p.call.seller) : ¬ HasWritten q := by
  rintro ⟨d, s, he⟩
  have hready := (stores_of hx q hq _ d _ he).ready { userId := q.call.seller }
  rw [hI.unset p hp hon _ (hI.settled q hq d s he) hseller] at hready
  cases hready

theorem once_step (hx : Reachable x) (hI : Turns x) (hs : x.Step y l)
    (hp : y.procs[i]? = some p) (hq : y.procs[j]? = some q) (hwp : HasWritten p)
    (hwq : HasWritten q) (hseller : p.call.seller = q.call.seller) : i = j := by
  obtain ⟨d, s, hep⟩ := hwp
  obtain ⟨d', s', heq⟩ := hwq
  rcases written_step hs hp hep with ⟨p', hp', hpcall, -, hep⟩ | ⟨p', fate, k, hp', rfl, hk, hpcall, -⟩
  · rcases written_step hs hq heq with ⟨q', hq', hqcall, -, heq⟩ | ⟨q', fate, k, hq', rfl, hk, hqcall, -⟩
    · exact hI.once hp' hq' ⟨d, s, by rw [hpcall]; exact hep⟩ ⟨d', s', by rw [hqcall]; exact heq⟩
        (by rw [hpcall, hqcall, hseller])
    · exact absurd ⟨d, s, by rw [hpcall]; exact hep⟩
        (not_written hx hI (List.mem_of_getElem? hq') (List.mem_of_getElem? hp')
          (onboarding_of_update hk) (by rw [hpcall, hqcall, hseller]))
  · rcases written_step hs hq heq with ⟨q', hq', hqcall, -, heq⟩ | ⟨q', fate', k', -, hl, -, -, -⟩
    · exact absurd ⟨d', s', by rw [hqcall]; exact heq⟩
        (not_written hx hI (List.mem_of_getElem? hp') (List.mem_of_getElem? hq')
          (onboarding_of_update hk) (by rw [hpcall, hqcall, hseller]))
    · cases hl
      rfl

/-- **Turns are kept.** -/
theorem turns_step (hx : Reachable x) (hI : Turns x) (hP : inTurn x l = true)
    (hl : x.next Guard.free l = some y) : Turns y := by
  have hs := Config.next_step hl
  have hy : Reachable y := Relation.ReflTransGen.tail hx ⟨l, hl⟩
  exact
    { alone := alone_step hy hI hP hs
      unset := fun q hq hon => by
        obtain ⟨j, hj⟩ := List.getElem?_of_mem hq
        exact unset_step hx hy hI hs hj hon
      origin := fun s hmem hready => origin_step hx hI hs hmem hready
      settled := fun q hq => by
        obtain ⟨j, hj⟩ := List.getElem?_of_mem hq
        exact settled_step hx hI hs hj
      once := once_step hx hI hs }

theorem turns_of_follows (hx : Follows inTurn ⟨World.initial, []⟩ x) : Turns x :=
  hx.invariant turns_initial fun hu hI hP hl => turns_step hu hI hP hl

/-- A call that ended well has written. -/
theorem written_of_succeeded (hx : Reachable x) (hp : p ∈ x.procs) (hok : Succeeded p) :
    ∃ d s, ⟨.sellerProfileUpdate p.call.seller d, .ok s⟩ ∈ p.hist ∧ Stores p.call p.hist d := by
  obtain ⟨profile, hprog⟩ := hok
  exact Reaches.along (V := service) (P := Possible) (J := Promise) (R := Wrote) possible_exec
    (fun _ => code_along) hx p hp _ hprog profile rfl

/-- **A seller's destination is set once.** In every run in which a seller's profile is read only while
no other call for the seller is between its read and its update: of all calls for a seller, from wherever
they come, one succeeds; a stored destination comes from one call, which is the one that succeeded if any
did, and stays; and a call that succeeded has stored its own. -/
theorem one_destination {x : Config service} (h : Follows inTurn ⟨World.initial, []⟩ x) :
    (∀ (i j : Nat) (p q : Process service), x.procs[i]? = some p → x.procs[j]? = some q →
      Succeeded p → Succeeded q → p.call.seller = q.call.seller → i = j) ∧
    (∀ s ∈ World.sellerProfiles x.world, ready s = true → ∃ (i : Nat) (p : Process service),
      x.procs[i]? = some p ∧ p.call.seller = s.userId ∧ ComesFrom p.call p.hist s ∧
        ∀ (j : Nat) (q : Process service), x.procs[j]? = some q → Succeeded q →
          q.call.seller = s.userId → i = j) ∧
    (∀ p ∈ x.procs, Succeeded p → ∃ s ∈ World.sellerProfiles x.world,
      s.userId = p.call.seller ∧ ready s = true ∧ ComesFrom p.call p.hist s) ∧
    ∀ y, Follows inTurn x y → ∀ s ∈ World.sellerProfiles x.world, ready s = true →
      s ∈ World.sellerProfiles y.world := by
  have hx := h.reaches
  have hI := turns_of_follows h
  have honce : ∀ (i j : Nat) (p q : Process service), x.procs[i]? = some p → x.procs[j]? = some q →
      Succeeded p → Succeeded q → p.call.seller = q.call.seller → i = j := by
    intro i j p q hp hq hokp hokq hseller
    obtain ⟨d, s, hep, -⟩ := written_of_succeeded hx (List.mem_of_getElem? hp) hokp
    obtain ⟨d', s', heq, -⟩ := written_of_succeeded hx (List.mem_of_getElem? hq) hokq
    exact hI.once hp hq ⟨d, s, hep⟩ ⟨d', s', heq⟩ hseller
  have hstored : ∀ p ∈ x.procs, Succeeded p → ∃ s ∈ World.sellerProfiles x.world,
      s.userId = p.call.seller ∧ ready s = true ∧ ComesFrom p.call p.hist s := by
    intro p hp hok
    obtain ⟨d, s, he, hd⟩ := written_of_succeeded hx hp hok
    exact ⟨_, hI.settled p hp d s he, rfl, hd.ready _, hd.comesFrom _⟩
  refine ⟨honce, fun s hmem hready => ?_, hstored, fun y hy s hmem hready => ?_⟩
  · by_cases hok : ∃ (i : Nat) (p : Process service), x.procs[i]? = some p ∧ Succeeded p ∧
        p.call.seller = s.userId
    · obtain ⟨i, p, hp, hok, hseller⟩ := hok
      obtain ⟨s', hmem', hid, -, hcomes⟩ := hstored p (List.mem_of_getElem? hp) hok
      obtain rfl : s' = s := profile_eq hmem' hmem (hid.trans hseller)
      exact ⟨i, p, hp, hseller, hcomes, fun j q hq hokq hq' =>
        honce i j p q hp hq hok hokq (hseller.trans hq'.symm)⟩
    · obtain ⟨p, hp, hseller, hcomes⟩ := hI.origin s hmem hready
      obtain ⟨i, hi⟩ := List.getElem?_of_mem hp
      exact ⟨i, p, hi, hseller, hcomes, fun j q hq hokq hq' => absurd ⟨j, q, hq, hokq, hq'⟩ hok⟩
  · induction hy with
    | refl => exact hmem
    | @tail u v hrun hl ih =>
        obtain ⟨l, hP, hl⟩ := hl
        have hu : Follows inTurn ⟨World.initial, []⟩ u := h.trans hrun
        exact ready_step hu.reaches (turns_of_follows hu) (Config.next_step hl) ih hready

namespace Demo

def seller : Uuid := ⟨"00000000-0000-4000-8006-000000000001", by decide⟩

def onWeb : Call := ⟨.web, seller, ⟨"058", "0123456789"⟩⟩

def inChat : Call := ⟨.chat, seller, ⟨"044", "9876543210"⟩⟩

/-- Process `i` performs an operation; the bank and the provider answer with this text. -/
def serves (i : Nat) (text : String) : Label service := .perform i (.served text)

/-- A seller without destination. -/
def opened : List (Label service) := [.drift (.signUp ⟨seller, none⟩), .drift (.openProfile seller)]

/-- An onboarding from its read on. -/
def onboards (i : Nat) (name code : String) : List (Label service) :=
  [serves i name, serves i code, serves i "", serves i ""]

/-- Both calls read the profile; then the first goes on to its end. -/
def overlapping : List (Label service) :=
  opened ++ [.arrive onWeb, .arrive inChat, serves 0 "", serves 1 ""] ++ onboards 0 "ADA OBI" "RCP_1"

def succeeded (x : Config service) (i : Nat) : Bool :=
  match x.procs[i]?.bind Process.prog with
  | some (.done (.ok _)) => true
  | _ => false

theorem succeeded_iff {x : Config service} {i : Nat} (h : succeeded x i = true) :
    ∃ p, x.procs[i]? = some p ∧ Succeeded p := by
  unfold succeeded at h
  split at h
  · rename_i profile hprog
    obtain ⟨p, hp, hprog⟩ := Option.bind_eq_some_iff.mp hprog
    exact ⟨p, hp, profile, hprog⟩
  · cases h

/-- The destinations that are stored. -/
def codes (x : Config service) : List (Option String) :=
  (World.sellerProfiles x.world).rows.map SellerProfile.providerRecipientCode

end Demo

set_option maxRecDepth 20000 in
/-- **Two calls that both read the profile first both succeed,** and the later one repoints the
destination. -/
theorem destination_repointed :
    (¬ ∀ x : Config service, Reachable x → ∀ (i j : Nat) (p q : Process service),
      x.procs[i]? = some p → x.procs[j]? = some q → Succeeded p → Succeeded q →
        p.call.seller = q.call.seller → i = j) ∧
    ¬ ∀ x y : Config service, Reachable x → Reaches Guard.free x y →
      ∀ s ∈ World.sellerProfiles x.world, ready s = true → s ∈ World.sellerProfiles y.world := by
  have hrun : ((Config.run Guard.free Demo.overlapping ⟨World.initial, []⟩).bind fun x =>
      (Config.run Guard.free (Demo.onboards 1 "ADA OBI" "RCP_2") x).map fun y =>
        decide (Demo.codes x = [some "RCP_1"]) && decide (Demo.codes y = [some "RCP_2"]) &&
          Demo.succeeded y 0 && Demo.succeeded y 1 &&
          (y.procs.all fun p => p.call.seller == Demo.seller)) = some true := by decide
  obtain ⟨x, y, hx, hy, htest⟩ := exists_of_runs hrun
  simp only [Bool.and_eq_true, decide_eq_true_eq, List.all_eq_true, beq_iff_eq] at htest
  obtain ⟨⟨⟨⟨hbefore, hafter⟩, hfirst⟩, hsecond⟩, hseller⟩ := htest
  constructor
  · intro hall
    obtain ⟨p, hp, hokp⟩ := Demo.succeeded_iff hfirst
    obtain ⟨q, hq, hokq⟩ := Demo.succeeded_iff hsecond
    have hsame := (hseller p (List.mem_of_getElem? hp)).trans (hseller q (List.mem_of_getElem? hq)).symm
    exact absurd (hall y (hx.trans hy) 0 1 p q hp hq hokp hokq hsame) (by decide)
  · intro hall
    obtain ⟨s, hs, hcode⟩ := List.mem_map.mp (show some "RCP_1" ∈ Demo.codes x by simp [hbefore])
    have hready : ready s = true := by
      rw [ready, hcode]
      decide
    have hmem := List.mem_map_of_mem (f := SellerProfile.providerRecipientCode)
      (Table.mem_def.mp (hall x y hx hy s hs hready))
    change s.providerRecipientCode ∈ Demo.codes y at hmem
    rw [hafter, hcode] at hmem
    exact absurd hmem (by decide)

set_option maxRecDepth 20000 in
/-- A web call, and a call in chat after it, which is refused. -/
theorem one_destination_refused : ∃ x : Config service,
    (Follows inTurn ⟨World.initial, []⟩ x ∧ Demo.codes x = [some "RCP_1"]) ∧
    (∀ (i j : Nat) (p q : Process service), x.procs[i]? = some p → x.procs[j]? = some q →
      Succeeded p → Succeeded q → p.call.seller = q.call.seller → i = j) ∧
    ∀ y, Follows inTurn x y → ∀ s ∈ World.sellerProfiles x.world, ready s = true →
      s ∈ World.sellerProfiles y.world := by
  have hrun : ((Config.follow inTurn (Demo.opened ++ .arrive Demo.onWeb :: .arrive Demo.inChat ::
      Demo.serves 0 "" :: Demo.onboards 0 "ADA OBI" "RCP_1" ++ [Demo.serves 1 ""])
      ⟨World.initial, []⟩).map fun x => decide (Demo.codes x = [some "RCP_1"])) = some true := by
    decide
  obtain ⟨x, hx, htest⟩ := exists_of_follow hrun
  have hone := one_destination hx
  exact ⟨x, ⟨hx, of_decide_eq_true htest⟩, hone.1, hone.2.2.2⟩

end Meduman.Sellers
