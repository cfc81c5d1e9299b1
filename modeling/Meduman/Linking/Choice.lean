import Meduman.Linking.Resolution

/-!
# The side an admin keeps

Both accounts sell, and an admin says which profile survives. The general profile follows the choice; the
seller profile does not: where the target has one, the source's is discarded.

* `Chosen` : the choice decided both profiles
* `Decides` : the chosen side sells, and what it discards is no other destination
* `mergeSellerProfile_find`, `mergeProfile_find` : the profiles of the survivor
* **`choice_decides`** : a completed request follows the choice just when it `Decides`
-/

set_option autoImplicit false

namespace Meduman.Linking

open Effect Chat

/-! ## What a choice means -/

/-- Where released funds are sent. -/
structure Destination where
  providerRecipientCode : Option String
  settlementBankCode : Option String
  settlementAccountLast4 : Option String
  settlementAccountName : Option String
  settlementBankVerified : Bool
deriving DecidableEq

def destination (p : SellerProfile) : Destination where
  providerRecipientCode := p.providerRecipientCode
  settlementBankCode := p.settlementBankCode
  settlementAccountLast4 := p.settlementAccountLast4
  settlementAccountName := p.settlementAccountName
  settlementBankVerified := p.settlementBankVerified

def KeepProfile.side (k : KeepProfile) (source target : Uuid) : Uuid :=
  match k with
  | .target => target
  | .source => source

def KeepProfile.otherSide (k : KeepProfile) (source target : Uuid) : Uuid :=
  match k with
  | .target => source
  | .source => target

def profileOf (profiles : Table Profile) (userId : Uuid) : Option Profile :=
  profiles.find fun p => p.userId == userId

/-- Every field that the chosen profile has, and the others from the other. -/
structure Folds (chosen other : Option Profile) (p : Profile) : Prop where
  country : p.country = (chosen.bind Profile.country).or (other.bind Profile.country)
  city : p.city = (chosen.bind Profile.city).or (other.bind Profile.city)
  avatarUrl : p.avatarUrl = (chosen.bind Profile.avatarUrl).or (other.bind Profile.avatarUrl)
  bio : p.bio = (chosen.bind Profile.bio).or (other.bind Profile.bio)
  channelLinks : p.channelLinks =
    (chosen.bind Profile.channelLinks).or (other.bind Profile.channelLinks)

/-- The choice decided. -/
structure Chosen (k : KeepProfile) (source target : Uuid) (w w' : World) : Prop where
  /-- one seller profile is left, with the destination of the chosen side -/
  seller : ∃ chosen ∈ w.sellerProfiles, chosen.userId = k.side source target ∧
    ∃ kept ∈ w'.sellerProfiles, kept.userId = target ∧ destination kept = destination chosen ∧
      ∀ p ∈ w'.sellerProfiles, p.userId = source ∨ p.userId = target → p = kept
  profile : ∀ p ∈ w'.profiles, p.userId = target →
    Folds (profileOf w.profiles (k.side source target)) (profileOf w.profiles (k.otherSide source target))
      p
  left : ((profileOf w.profiles source).isSome ∨ (profileOf w.profiles target).isSome) →
    ∃ p ∈ w'.profiles, p.userId = target

/-- The chosen side sells; where it is the source, the target does not, or to the same destination. -/
def Decides (k : KeepProfile) (source target : Uuid) (w : World) : Prop :=
  source ≠ target ∧ ∃ chosen ∈ w.sellerProfiles, chosen.userId = k.side source target ∧
    (k = .source → ∀ p ∈ w.sellerProfiles, p.userId = target → destination p = destination chosen)

variable {source target : Uuid} {k : KeepProfile} {w w' : World}

/-! ## The seller profiles -/

/-- A seller has one profile. -/
theorem seller_eq {sellerProfiles : Table SellerProfile} {p q : SellerProfile}
    (hp : p ∈ sellerProfiles) (hq : q ∈ sellerProfiles) (h : p.userId = q.userId) : p = q :=
  Table.eq_of_clash hp hq (by simp [Constrained.clash, h])

theorem find_seller {sellerProfiles : Table SellerProfile} {p : SellerProfile}
    (hp : p ∈ sellerProfiles) : sellerProfiles.find (isOf p.userId) = some p :=
  Table.find_eq hp (beq_self_eq_true _) fun _ hq hid => seller_eq hq hp (beq_iff_eq.mp hid)

/-- **The survivor keeps its own seller profile,** and has the other's where it has none. -/
theorem mergeSellerProfile_find {sellerProfiles : Table SellerProfile}
    {r : Bool × Table SellerProfile} (hne : source ≠ target)
    (h : mergeSellerProfile source target sellerProfiles = .ok r) :
    r.2.find (isOf target) = (sellerProfiles.find (isOf target)).or
      ((sellerProfiles.find (isOf source)).map fun p => { p with userId := target }) := by
  unfold mergeSellerProfile at h
  cases hsource : sellerProfiles.find (isOf source) with
  | none =>
      rw [hsource] at h
      cases h
      simp
  | some s =>
      obtain ⟨hs, hsid⟩ := Table.find_spec hsource
      cases htarget : sellerProfiles.find (isOf target) with
      | some t =>
          obtain ⟨ht, htid⟩ := Table.find_spec htarget
          rw [hsource, htarget] at h
          cases h
          have hkept : t ∈ sellerProfiles.delete (isOf source) := Table.mem_delete.mpr
            ⟨ht, by rw [isOf, beq_iff_eq.mp htid]; exact beq_false_of_ne hne.symm⟩
          rw [← beq_iff_eq.mp htid, find_seller hkept]
          rfl
      | none =>
          rw [hsource, htarget] at h
          obtain ⟨moved, hmoved, hr⟩ := except_bind_ok h
          cases hr
          have hmem : { s with userId := target } ∈ moved.2 :=
            Table.mem_update_of (updateMany_ok hmoved) hs hsid
          exact find_seller hmem

/-- A merge of an account with itself leaves it no seller profile. -/
theorem mergeSellerProfile_self {sellerProfiles : Table SellerProfile}
    {r : Bool × Table SellerProfile}
    (h : mergeSellerProfile source source sellerProfiles = .ok r) :
    ∀ p ∈ r.2, p.userId ≠ source := by
  unfold mergeSellerProfile at h
  intro p hp
  cases hsource : sellerProfiles.find (isOf source) with
  | none =>
      rw [hsource] at h
      cases h
      simpa [isOf] using Table.find_none hsource hp
  | some s =>
      rw [hsource] at h
      cases h
      simpa [isOf] using (Table.mem_delete.mp hp).2

/-! ## The general profiles -/

/-- The target's profile with what its fields are folded to. -/
def foldInto (winner loser p : Profile) : Profile :=
  { p with
    country := winner.country.or loser.country
    city := winner.city.or loser.city
    avatarUrl := winner.avatarUrl.or loser.avatarUrl
    bio := winner.bio.or loser.bio
    channelLinks := (winner.channelLinks.or loser.channelLinks).or p.channelLinks }

theorem profile_eq {profiles : Table Profile} {p q : Profile} (hp : p ∈ profiles)
    (hq : q ∈ profiles) (h : p.userId = q.userId) : p = q :=
  Table.eq_of_clash hp hq (by simp [Constrained.clash, h])

theorem find_profile {profiles : Table Profile} {p : Profile} {u : Uuid} (hp : p ∈ profiles)
    (hid : p.userId = u) : profileOf profiles u = some p :=
  Table.find_eq hp (beq_iff_eq.mpr hid)
    fun _ hq hqid => profile_eq hq hp ((beq_iff_eq.mp hqid).trans hid.symm)

/-- The survivor's profile. -/
def survivor (k : KeepProfile) (target : Uuid) : Option Profile → Option Profile → Option Profile
  | none, t => t
  | some s, none => some { s with userId := target }
  | some s, some t => match k with
      | .target => some (foldInto t s t)
      | .source => some (foldInto s t t)

/-- What the merge leaves the survivor. -/
theorem mergeProfile_find {profiles : Table Profile} {r : Bool × Table Profile}
    (hne : source ≠ target) (h : mergeProfile source target (some k) profiles = .ok r) :
    profileOf r.2 target = survivor k target (profileOf profiles source) (profileOf profiles target) := by
  unfold mergeProfile at h
  cases hsource : profileOf profiles source with
  | none =>
      rw [profileOf] at hsource
      rw [hsource] at h
      cases h
      rfl
  | some s =>
      obtain ⟨hs, hsid⟩ := Table.find_spec hsource
      cases htarget : profileOf profiles target with
      | none =>
          rw [profileOf] at hsource htarget
          rw [hsource, htarget] at h
          obtain ⟨moved, hmoved, hr⟩ := except_bind_ok h
          cases hr
          exact find_profile (Table.mem_update_of (updateMany_ok hmoved) hs hsid) rfl
      | some t =>
          obtain ⟨ht, htid⟩ := Table.find_spec htarget
          rw [profileOf] at hsource htarget
          rw [hsource, htarget] at h
          obtain ⟨folded, hfolded, hr⟩ := except_bind_ok h
          cases hr
          have hmem := Table.mem_update_of (updateMany_ok hfolded) ht htid
          have hid : t.userId = target := beq_iff_eq.mp htid
          have hother : (t.userId == source) = false := beq_false_of_ne (hid ▸ hne.symm)
          have hkept := (Table.mem_delete (p := fun q : Profile => q.userId == source)).mpr
            ⟨hmem, hother⟩
          rw [find_profile hkept hid]
          cases k <;> rfl

/-- The survivor's profile takes what the chosen one has; the other only fills gaps. -/
theorem survivor_folds {s t : Option Profile} {p : Profile} (h : survivor k target s t = some p) :
    Folds (match k with | .target => t | .source => s) (match k with | .target => s | .source => t)
      p := by
  cases s with
  | none =>
      obtain rfl : t = some p := h
      cases k <;> constructor <;> simp
  | some s =>
      cases t with
      | none =>
          cases h
          cases k <;> constructor <;> simp
      | some t =>
          cases k <;> cases h <;> constructor <;>
            first
              | rfl
              | (cases hs : s.channelLinks <;> cases ht : t.channelLinks <;>
                  simp [foldInto, hs, ht])

theorem survivor_isSome {s t : Option Profile} (h : s.isSome ∨ t.isSome) :
    (survivor k target s t).isSome := by
  cases s <;> cases t <;> cases k <;> simp_all [survivor]

/-- **The general profile follows the choice.** -/
theorem mergeProfile_folds {profiles : Table Profile} {r : Bool × Table Profile}
    (hne : source ≠ target) (h : mergeProfile source target (some k) profiles = .ok r) :
    (∀ p ∈ r.2, p.userId = target → Folds (profileOf profiles (k.side source target))
      (profileOf profiles (k.otherSide source target)) p) ∧
    (((profileOf profiles source).isSome ∨ (profileOf profiles target).isSome) →
      ∃ p ∈ r.2, p.userId = target) := by
  have hfind := mergeProfile_find hne h
  refine ⟨fun p hp hid => ?_, fun hsome => ?_⟩
  · have hfolds := survivor_folds (hfind.symm.trans (find_profile hp hid))
    cases k <;> exact hfolds
  · have hleft : (survivor k target (profileOf profiles source) (profileOf profiles target)).isSome :=
      survivor_isSome hsome
    obtain ⟨p, hp⟩ := Option.isSome_iff_exists.mp hleft
    obtain ⟨hmem, hid⟩ := Table.find_spec (hfind.trans hp)
    exact ⟨p, hmem, beq_iff_eq.mp hid⟩

/-! ## Completed requests -/

variable {env : Env} {input : ResolveInput} {r : ChatLinkRequest} {u : World}

/-- The two profiles of a merge that commits. -/
theorem merge_profiles {opts : MergeOptions} {report : MergeReport}
    (h : merge source target opts w = .ok (report, w')) :
    (∃ moved, mergeProfile source target opts.keepProfile w.profiles = .ok (moved, w'.profiles)) ∧
      ∃ moved, mergeSellerProfile source target w.sellerProfiles = .ok (moved, w'.sellerProfiles) := by
  unfold merge at h
  dsimp only at h
  split at h
  · cases h
  · split at h
    · cases h
    · split at h
      · cases h
      · split at h
        · cases h
        · obtain ⟨identities, -, h⟩ := except_bind_ok h
          obtain ⟨sold, -, h⟩ := except_bind_ok h
          obtain ⟨bought, -, h⟩ := except_bind_ok h
          obtain ⟨payouts, -, h⟩ := except_bind_ok h
          obtain ⟨invoicesSold, -, h⟩ := except_bind_ok h
          obtain ⟨invoicesBought, -, h⟩ := except_bind_ok h
          obtain ⟨notifications, -, h⟩ := except_bind_ok h
          obtain ⟨disputes, -, h⟩ := except_bind_ok h
          obtain ⟨evidence, -, h⟩ := except_bind_ok h
          obtain ⟨profiles, hprofiles, h⟩ := except_bind_ok h
          obtain ⟨sellerProfiles, hsellerProfiles, h⟩ := except_bind_ok h
          obtain ⟨users, -, h⟩ := except_bind_ok h
          cases h
          exact ⟨⟨_, hprofiles⟩, ⟨_, hsellerProfiles⟩⟩

/-- The profiles are the same. -/
def SameProfiles (w w' : World) : Prop :=
  w'.profiles = w.profiles ∧ w'.sellerProfiles = w.sellerProfiles

theorem SameProfiles.trans (h : SameProfiles w u) (h' : SameProfiles u w') : SameProfiles w w' :=
  ⟨h'.1.trans h.1, h'.2.trans h.2⟩

/-- Only a merge touches the profiles. -/
theorem profiles_exec {op : Op} {fate : Fate Supply} {a : Except Err op.Ans}
    (h : backend.exec op fate w = some (a, u)) (hop : ∀ s t opts, op ≠ .mergeAccounts s t opts) :
    SameProfiles w u := by
  cases exec_changes h with
  | merge merged => exact absurd rfl (hop _ _ _)
  | _ => exact ⟨rfl, rfl⟩

/-- What goes on after an operation that succeeded. -/
theorem played_ok {β : Type} {op : Op} {f : op.Ans → Program β} {fates : List (Fate Supply)}
    {b : β} (h : (await op >>= f).playWith (service env) fates w = some (.ok b, w')) :
    ∃ fate rest a u, backend.exec op fate w = some (.ok a, u) ∧
      (f a).playWith (service env) rest u = some (.ok b, w') := by
  obtain ⟨fate, rest, a, u, -, he, h⟩ := Prog.playWith_await h
  cases a with
  | error e => cases h
  | ok a => exact ⟨fate, rest, a, u, he, h⟩

/-- A completed request was merged, in a world and to a world with the same profiles. -/
theorem resolve_completes (hr : r ∈ w.linkRequests) (hid : input.id = r.id)
    (hparked : r.status = .pendingReview) (hcomplete : input.outcome = .complete)
    (hsource : r.sourceUserId = some source) (hkeep : input.keepProfile = some k)
    {fates : List (Fate Supply)} {status : ChatLinkRequestStatus}
    (h : (resolve input).playWith (service env) fates w = some (.ok status, w')) :
    ∃ report u v, SameProfiles w u ∧ merge source r.targetUserId
      ⟨some k, some .sellerProfileConflict⟩ u = .ok (report, v) ∧ SameProfiles v w' := by
  obtain ⟨_, _, found, u, hread, hrest⟩ := played_ok h
  obtain ⟨rfl, rfl⟩ : found = some r ∧ u = w := by
    obtain ⟨s, -, heff⟩ := Backend.exec_ok hread
    have hfind : (w.linkRequests.find fun q => q.id == input.id) = some r :=
      Table.find_eq hr (by rw [hid]; exact beq_self_eq_true _)
        fun q hq hq' => request_eq hq hr ((beq_iff_eq.mp hq').trans hid)
    have hpair := Prod.mk.inj heff
    exact ⟨(Except.ok.inj hpair.1).symm.trans hfind, hpair.2.symm⟩
  simp only [hparked, ne_eq, not_true_eq_false, if_false, hsource, hcomplete, hkeep] at hrest
  cases hidentity : r.chatIdentityId with
  | none =>
      rw [hidentity] at hrest
      cases hrest
  | some chatIdentityId =>
      rw [hidentity] at hrest
      dsimp only at hrest
      rw [if_neg (by decide)] at hrest
      split at hrest
      · cases hrest
      · obtain ⟨_, _, _, v₁, hpromote, hrest⟩ := played_ok hrest
        obtain ⟨_, _, identity, v₂, hread, hrest⟩ := played_ok hrest
        obtain ⟨_, _, report, v₃, hmerge, hrest⟩ := played_ok hrest
        obtain ⟨_, _, now, v₄, hnow, hrest⟩ := played_ok hrest
        obtain ⟨_, _, _, v₅, hwritten, hrest⟩ := played_ok hrest
        obtain ⟨_, _, _, v₆, haudit, hrest⟩ := played_ok hrest
        obtain rfl : v₆ = w' := (Prod.mk.inj (Option.some.inj hrest)).2
        obtain ⟨s, -, heff⟩ := Backend.exec_ok hmerge
        simp only [backend, effect] at heff
        split at heff
        · cases heff
        · rename_i report' v hmerged
          cases heff
          have hpromoted : SameProfiles u v₁ := profiles_exec hpromote fun _ _ _ => Op.noConfusion
          have hfound : SameProfiles v₁ v₂ := profiles_exec hread fun _ _ _ => Op.noConfusion
          have hclock : SameProfiles v₃ v₄ := profiles_exec hnow fun _ _ _ => Op.noConfusion
          have hrecorded : SameProfiles v₄ v₅ := profiles_exec hwritten fun _ _ _ => Op.noConfusion
          have haudited : SameProfiles v₅ v₆ := profiles_exec haudit fun _ _ _ => Op.noConfusion
          exact ⟨_, _, _, hpromoted.trans hfound, hmerged, (hclock.trans hrecorded).trans haudited⟩

/-- **The choice decides just when the chosen side sells and nothing else is discarded.** A parked
request that was completed leaves one seller profile, of the chosen side, and the fold of the two general
profiles, if and only if the two accounts differ, the chosen one still sells, and where it is the source,
the target does not sell, or to the same destination. -/
theorem choice_decides (env : Env) (input : ResolveInput) (r : ChatLinkRequest) (w w' : World)
    (fates : List (Fate Supply)) (status : ChatLinkRequestStatus) (source : Uuid) (k : KeepProfile)
    (hr : r ∈ w.linkRequests) (hid : input.id = r.id) (hparked : r.status = .pendingReview)
    (hcomplete : input.outcome = .complete) (hsource : r.sourceUserId = some source)
    (hkeep : input.keepProfile = some k)
    (h : (resolve input).playWith (service env) fates w = some (.ok status, w')) :
    Chosen k source r.targetUserId w w' ↔ Decides k source r.targetUserId w := by
  obtain ⟨report, u, v, hbefore, hmerge, hafter⟩ :=
    resolve_completes hr hid hparked hcomplete hsource hkeep h
  obtain ⟨⟨_, hprofiles⟩, ⟨_, hsellers⟩⟩ := merge_profiles hmerge
  rw [hbefore.1, ← hafter.1] at hprofiles
  rw [hbefore.2, ← hafter.2] at hsellers
  generalize r.targetUserId = target at *
  constructor
  · rintro ⟨⟨chosen, hchosen, hcid, kept, hkept, hkid, hdest, -⟩, -, -⟩
    have hne : source ≠ target := by
      rintro rfl
      exact mergeSellerProfile_self hsellers kept hkept hkid
    refine ⟨hne, chosen, hchosen, hcid, fun _ p hp hpid => ?_⟩
    have hfind := mergeSellerProfile_find hne hsellers
    rw [← hpid, find_seller hp, Option.some_or, ← hkid.trans hpid.symm, find_seller hkept] at hfind
    rw [← hdest, Option.some.inj hfind]
  · rintro ⟨hne, chosen, hchosen, hcid, hdiscarded⟩
    have hfind := mergeSellerProfile_find hne hsellers
    have hfolded := mergeProfile_folds hne hprofiles
    refine ⟨⟨chosen, hchosen, hcid, ?_⟩, hfolded.1, hfolded.2⟩
    obtain ⟨kept, hkept, hdest⟩ : ∃ kept, w'.sellerProfiles.find (isOf target) = some kept ∧
        destination kept = destination chosen := by
      rw [hfind]
      cases k with
      | target =>
          obtain rfl : chosen.userId = target := hcid
          exact ⟨chosen, by rw [find_seller hchosen, Option.some_or], rfl⟩
      | source =>
          obtain rfl : chosen.userId = source := hcid
          cases htarget : w.sellerProfiles.find (isOf target) with
          | some p =>
              obtain ⟨hp, hpid⟩ := Table.find_spec htarget
              exact ⟨p, Option.some_or, hdiscarded rfl p hp (beq_iff_eq.mp hpid)⟩
          | none => exact ⟨{ chosen with userId := target }, by rw [find_seller hchosen]; rfl, rfl⟩
    obtain ⟨hmem, hkid⟩ := Table.find_spec hkept
    refine ⟨kept, hmem, beq_iff_eq.mp hkid, hdest, fun p hp hpid => ?_⟩
    rcases hpid with hpid | hpid
    · exact absurd hpid ((mergeSellerProfile_ok hsellers).1 hne p hp)
    · exact seller_eq hp hmem (hpid.trans (beq_iff_eq.mp hkid).symm)

namespace Demo

/-- Nothing fails. -/
def smooth : List (Fate Supply) := List.replicate 7 served

/-- What a resolution that succeeds leaves. -/
def completed (k : KeepProfile) : Option World :=
  ((resolve (ruling (some k))).playWith (service settings) smooth underReview).bind fun x =>
    x.1.toOption.map fun _ => x.2

theorem completed_iff {k : KeepProfile} {w : World} (h : completed k = some w) : ∃ status,
    (resolve (ruling (some k))).playWith (service settings) smooth underReview =
      some (.ok status, w) := by
  obtain ⟨⟨result, w'⟩, hplay, hw⟩ := Option.bind_eq_some_iff.mp h
  cases result with
  | error e => cases hw
  | ok status =>
      cases hw
      exact ⟨status, hplay⟩

end Demo

set_option maxRecDepth 20000 in
/-- **The source's destination is discarded although the admin kept the source.** -/
theorem source_discarded : ¬ ∀ (env : Env) (input : ResolveInput) (r : ChatLinkRequest) (w w' : World)
    (fates : List (Fate Supply)) (status : ChatLinkRequestStatus) (source : Uuid) (k : KeepProfile),
    r ∈ w.linkRequests → input.id = r.id → r.status = .pendingReview →
      r.conflictReason = some .sellerProfileConflict → input.outcome = .complete →
      r.sourceUserId = some source → input.keepProfile = some k →
      (resolve input).playWith (service env) fates w = some (.ok status, w') →
        Chosen k source r.targetUserId w w' := by
  intro hall
  have hrun : ((Demo.completed .source).map fun w => w.sellerProfiles.rows.map (·.providerRecipientCode))
      = some [some "RCP_2"] := by decide
  obtain ⟨w', hcompleted, hrows⟩ := Option.map_eq_some_iff.mp hrun
  obtain ⟨status, hplay⟩ := Demo.completed_iff hcompleted
  obtain ⟨⟨chosen, hchosen, hcid, kept, hkept, -, hdest, -⟩, -, -⟩ :=
    hall _ _ Demo.parked _ _ _ _ _ _ (List.mem_singleton_self _) rfl rfl rfl rfl rfl rfl hplay
  have hcode : kept.providerRecipientCode = some "RCP_2" := by
    have hmem := List.mem_map_of_mem (f := SellerProfile.providerRecipientCode) hkept
    rw [hrows] at hmem
    exact List.mem_singleton.mp hmem
  have hchosenCode : chosen.providerRecipientCode = some "RCP_1" := by
    rw [seller_eq hchosen (q := { userId := Demo.chatBorn, providerRecipientCode := some "RCP_1" })
      List.mem_cons_self hcid]
  have hsame := (congrArg Destination.providerRecipientCode hdest).symm.trans hcode
  exact absurd (hchosenCode.symm.trans hsame) (by decide)

set_option maxRecDepth 20000 in
/-- The target is kept. -/
theorem choice_decides_target : ∃ w', Demo.completed .target = some w' ∧
    Chosen .target Demo.chatBorn Demo.webBorn Demo.underReview w' := by
  have hrun : (Demo.completed .target).isSome = true := by decide
  obtain ⟨w', hcompleted⟩ := Option.isSome_iff_exists.mp hrun
  obtain ⟨status, hplay⟩ := Demo.completed_iff hcompleted
  have hiff := choice_decides Demo.settings _ Demo.parked _ _ _ _ _ _ (List.mem_singleton_self _) rfl
    rfl rfl rfl rfl hplay
  refine ⟨w', hcompleted, hiff.mpr ⟨by decide, _, List.mem_cons_of_mem _ (List.mem_singleton_self _),
    rfl, fun h => by cases h⟩⟩

end Meduman.Linking
