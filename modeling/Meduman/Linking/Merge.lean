import Meduman.Model.Linking
import Meduman.Model.World

/-!
# What a merge does

Every table that refers to a user follows the merge; nothing else changes.

* `Merged` : the tables after a merge, row by row
* **`merge_merged`** : a merge that commits leaves them so
* `Clear` : what a merge needs besides the absence of a collision
* **`merge_commits_iff`** : when it commits
* `Absent`, **`Merged.absent`** : then no row refers to whom it absorbed
-/

set_option autoImplicit false

namespace Meduman.Linking

open Effect Chat

/-! ## Small steps -/

theorem except_bind_ok {ε α β : Type} {x : Except ε α} {f : α → Except ε β} {b : β}
    (h : (x >>= f) = .ok b) : ∃ a, x = .ok a ∧ f a = .ok b := by
  cases x with
  | error e => cases h
  | ok a => exact ⟨a, rfl, h⟩

section Update

variable {α : Type} [Constrained α] {t : Table α} {p : α → Bool} {f g : α → α}

theorem updateMany_ok {r : Nat × Table α} (h : updateMany t p f = .ok r) :
    t.update p f = some r.2 := by
  unfold updateMany at h
  split at h
  · cases h
  · cases h
    assumption

/-- The rows after an update that changes none it does not select. -/
theorem rows_updateMany {r : Nat × Table α} (h : updateMany t p f = .ok r)
    (hg : ∀ a, (if p a then f a else a) = g a) : r.2.rows = t.rows.map g := by
  rw [Table.rows_update (updateMany_ok h)]
  exact List.map_congr_left fun a _ => hg a

theorem updateMany_of_update {t' : Table α} (h : t.update p f = some t') :
    updateMany t p f = .ok (t.count p, t') := by
  rw [updateMany, h]

/-- An update of columns without constraint succeeds. -/
theorem updateMany_free (hf : ∀ a b, Constrained.clash (f a) b = Constrained.clash a b) :
    ∃ r, updateMany t p f = .ok r := by
  have hf' : ∀ a b, Constrained.clash a (f b) = Constrained.clash a b := fun a b => by
    rw [Constrained.clash_comm, hf, Constrained.clash_comm]
  obtain ⟨t', ht'⟩ := Table.update_isSome (t := t) (p := p) (f := f) fun a _ b _ => by
    split <;> split <;> simp only [hf, hf']
  exact ⟨_, updateMany_of_update ht'⟩

/-- What succeeds and is followed by what succeeds. -/
theorem bind_commits {α β : Type} {x : Except Err α} {f : α → Except Err β}
    (hx : ∃ a, x = .ok a) (hf : ∀ a, ∃ b, f a = .ok b) : ∃ b, (x >>= f) = .ok b := by
  obtain ⟨a, rfl⟩ := hx
  exact hf a

end Update

variable {source target : Uuid} {opts : MergeOptions} {keepProfile : Option KeepProfile}
  {w w' : World} {report : MergeReport}

/-! ## The rows of each table -/

def ChatIdentity.reparent (source target : Uuid) (i : ChatIdentity) : ChatIdentity :=
  { i with userId := i.userId.merged source target }

def reparentTransaction (source target : Uuid) (t : Transaction) : Transaction :=
  { t with
    sellerId := t.sellerId.merged source target
    buyerId := t.buyerId.map fun u => u.merged source target }

def reparentPayout (source target : Uuid) (p : Payout) : Payout :=
  { p with sellerId := p.sellerId.merged source target }

def Invoice.reparent (source target : Uuid) (i : Invoice) : Invoice :=
  { i with
    sellerId := i.sellerId.merged source target
    buyerId := i.buyerId.map fun u => u.merged source target }

def Notification.reparent (source target : Uuid) (n : Notification) : Notification :=
  { n with userId := n.userId.merged source target }

def reparentDispute (source target : Uuid) (d : Dispute) : Dispute :=
  { d with openedBy := d.openedBy.merged source target }

def Evidence.reparent (source target : Uuid) (e : Evidence) : Evidence :=
  { e with uploadedBy := e.uploadedBy.merged source target }

/-- The surviving user's row, whose gaps the absorbed one fills. -/
def User.fill (sourceUser targetUser u : User) : User :=
  if u.id = targetUser.id then
    { u with
      roleFlags := (targetUser.roleFlags ++ sourceUser.roleFlags).eraseDups
      phone := (truthy (targetUser.phone.or sourceUser.phone)).or u.phone }
  else u

/-- The absorbed user's row. -/
def User.bury (source target : Uuid) (now : Int) (u : User) : User :=
  if u.id = source then
    { u with status := .deactivated, mergedIntoUserId := some target, mergedAt := some now }
  else u

@[simp] theorem User.fill_id (s t u : User) : (User.fill s t u).id = u.id := by
  unfold User.fill
  split <;> rfl

@[simp] theorem User.fill_mergedIntoUserId (s t u : User) :
    (User.fill s t u).mergedIntoUserId = u.mergedIntoUserId := by
  unfold User.fill
  split <;> rfl

@[simp] theorem User.fill_mergedAt (s t u : User) : (User.fill s t u).mergedAt = u.mergedAt := by
  unfold User.fill
  split <;> rfl

/-- The tables after a merge, as they follow from the tables before it. -/
structure Merged (source target : Uuid) (w w' : World) : Prop where
  clock : w'.clock = w.clock
  authUsers : w'.authUsers = w.authUsers
  linkRequests : w'.linkRequests = w.linkRequests
  timeline : w'.timeline = w.timeline
  audited : ∃ row, w'.auditLogs = w.auditLogs ++ [row]
  chatIdentities : w'.chatIdentities.rows = w.chatIdentities.rows.map (ChatIdentity.reparent source target)
  transactions : w'.transactions.rows =
    w.transactions.rows.map (reparentTransaction source target)
  payouts : w'.payouts.rows = w.payouts.rows.map (reparentPayout source target)
  invoices : w'.invoices.rows = w.invoices.rows.map (Invoice.reparent source target)
  notifications : w'.notifications.rows = w.notifications.rows.map
    (Notification.reparent source target)
  disputes : w'.disputes.rows = w.disputes.rows.map (reparentDispute source target)
  evidence : w'.evidence.rows = w.evidence.rows.map (Evidence.reparent source target)
  profiles : source ≠ target → ∀ p ∈ w'.profiles, p.userId ≠ source
  sellerProfiles : source ≠ target → ∀ p ∈ w'.sellerProfiles, p.userId ≠ source
  /-- The profiles of everybody else stay. -/
  otherProfiles : ∀ p, p.userId ≠ source → p.userId ≠ target → (p ∈ w'.profiles ↔ p ∈ w.profiles)
  otherSellerProfiles : ∀ p, p.userId ≠ source → p.userId ≠ target →
    (p ∈ w'.sellerProfiles ↔ p ∈ w.sellerProfiles)
  users : ∃ sourceUser ∈ w.users, ∃ targetUser ∈ w.users, sourceUser.id = source ∧
    targetUser.id = target ∧ w'.users.rows =
      w.users.rows.map fun u => User.bury source target w.clock (User.fill sourceUser targetUser u)

/-! ## The one-to-one tables -/

/-- Rows of a third user are not selected by an update of one user's row. -/
theorem mem_updateMany_other {α : Type} [Constrained α] {t : Table α} {f : α → α} {k : α → Uuid}
    {selected : Uuid} {r : Nat × Table α} (h : updateMany t (fun a => k a == selected) f = .ok r)
    {p : α} (hp : k p ≠ selected) (hf : ∀ a, k a = selected → f a ≠ p) : p ∈ r.2 ↔ p ∈ t := by
  rw [Table.mem_update (updateMany_ok h)]
  constructor
  · rintro ⟨a, ha, rfl⟩
    by_cases hsel : k a = selected
    · simp only [hsel, beq_self_eq_true, if_true] at hf hp ⊢
      exact absurd rfl (hf a hsel)
    · simpa [hsel] using ha
  · exact fun hmem => ⟨p, hmem, by simp [hp]⟩

theorem mergeProfile_ok {profiles : Table Profile} {r : Bool × Table Profile}
    (h : mergeProfile source target keepProfile profiles = .ok r) :
    (source ≠ target → ∀ p ∈ r.2, p.userId ≠ source) ∧
      ∀ p, p.userId ≠ source → p.userId ≠ target → (p ∈ r.2 ↔ p ∈ profiles) := by
  unfold mergeProfile at h
  split at h
  · rename_i hnone
    cases h
    exact ⟨fun _ p hp => by simpa using Table.find_none hnone hp, fun _ _ _ => Iff.rfl⟩
  · split at h
    · obtain ⟨moved, hmoved, hr⟩ := except_bind_ok h
      cases hr
      refine ⟨fun hne p hp => ?_, fun p hs ht => ?_⟩
      · obtain ⟨a, -, rfl⟩ := (Table.mem_update (updateMany_ok hmoved)).mp hp
        split
        · exact hne.symm
        · rename_i hsel
          simpa using hsel
      · exact mem_updateMany_other hmoved hs fun a _ heq => ht (heq ▸ rfl)
    · obtain ⟨folded, hfolded, hr⟩ := except_bind_ok h
      cases hr
      refine ⟨fun _ p hp => by simpa using (Table.mem_delete.mp hp).2, fun p hs ht => ?_⟩
      rw [Table.mem_delete, mem_updateMany_other hfolded ht fun a ha heq => ht (heq ▸ ha)]
      simp [hs]

theorem mergeSellerProfile_ok {sellerProfiles : Table SellerProfile}
    {r : Bool × Table SellerProfile}
    (h : mergeSellerProfile source target sellerProfiles = .ok r) :
    (source ≠ target → ∀ p ∈ r.2, p.userId ≠ source) ∧
      ∀ p, p.userId ≠ source → p.userId ≠ target → (p ∈ r.2 ↔ p ∈ sellerProfiles) := by
  unfold mergeSellerProfile at h
  split at h
  · rename_i hnone
    cases h
    exact ⟨fun _ p hp => by simpa [isOf] using Table.find_none hnone hp, fun _ _ _ => Iff.rfl⟩
  · split at h
    · cases h
      refine ⟨fun _ p hp => by simpa [isOf] using (Table.mem_delete.mp hp).2, fun p hs _ => ?_⟩
      rw [Table.mem_delete]
      simp [isOf, hs]
    · obtain ⟨moved, hmoved, hr⟩ := except_bind_ok h
      cases hr
      refine ⟨fun hne p hp => ?_, fun p hs ht => ?_⟩
      · obtain ⟨a, -, rfl⟩ := (Table.mem_update (updateMany_ok hmoved)).mp hp
        split
        · exact hne.symm
        · rename_i hsel
          simpa [isOf] using hsel
      · exact mem_updateMany_other (k := SellerProfile.userId) hmoved hs
          fun a _ heq => ht (heq ▸ rfl)

theorem mergeUsers_ok {sourceUser targetUser : User} {now : Int} {users users' : Table User}
    (h : mergeUsers sourceUser targetUser now users = .ok users') :
    users'.rows = users.rows.map fun u =>
      User.bury sourceUser.id targetUser.id now (User.fill sourceUser targetUser u) := by
  unfold mergeUsers at h
  obtain ⟨filled, hfilled, h⟩ := except_bind_ok h
  obtain ⟨buried, hburied, hr⟩ := except_bind_ok h
  cases hr
  rw [rows_updateMany hburied (g := User.bury sourceUser.id targetUser.id now) fun u => by
      simp [User.bury],
    rows_updateMany hfilled (g := User.fill sourceUser targetUser) fun u => by simp [User.fill],
    List.map_map]
  rfl

/-! ## The two-sided tables

A merge updates the sellers of a table, and then its buyers. -/

def reparentSeller (source target : Uuid) (t : Transaction) : Transaction :=
  if t.sellerId = source then { t with sellerId := target } else t

def reparentBuyer (source target : Uuid) (t : Transaction) : Transaction :=
  if t.buyerId = some source then { t with buyerId := some target } else t

theorem reparent_seller_buyer (t : Transaction) :
    reparentBuyer source target (reparentSeller source target t) =
      reparentTransaction source target t := by
  obtain ⟨id, link, sellerId, buyerId⟩ := t
  unfold reparentBuyer reparentSeller reparentTransaction Uuid.merged
  cases buyerId <;> by_cases hseller : sellerId = source <;> simp [hseller] <;> split <;> simp [*]

def Invoice.reparentSeller (source target : Uuid) (i : Invoice) : Invoice :=
  if i.sellerId = source then { i with sellerId := target } else i

def Invoice.reparentBuyer (source target : Uuid) (i : Invoice) : Invoice :=
  if i.buyerId = some source then { i with buyerId := some target } else i

theorem Invoice.reparent_seller_buyer (i : Invoice) :
    Invoice.reparentBuyer source target (Invoice.reparentSeller source target i) =
      Invoice.reparent source target i := by
  obtain ⟨⟨id, sellerId⟩, buyerId⟩ := i
  unfold Invoice.reparentBuyer Invoice.reparentSeller Invoice.reparent Uuid.merged
  cases buyerId <;> by_cases hseller : sellerId = source <;> simp [hseller] <;> split <;> simp [*]

/-! ## The whole merge -/

/-- **A merge that commits moves what refers to the absorbed user,** and nothing else. -/
theorem merge_merged (h : merge source target opts w = .ok (report, w')) :
    Merged source target w w' := by
  unfold merge at h
  dsimp only at h
  split at h
  · cases h
  · split at h
    · cases h
    · split at h
      · cases h
      · rename_i sourceUser hsource
        split at h
        · cases h
        · rename_i targetUser htarget
          obtain ⟨identities, hidentities, h⟩ := except_bind_ok h
          obtain ⟨sold, hsold, h⟩ := except_bind_ok h
          obtain ⟨bought, hbought, h⟩ := except_bind_ok h
          obtain ⟨payouts, hpayouts, h⟩ := except_bind_ok h
          obtain ⟨invoicesSold, hinvoicesSold, h⟩ := except_bind_ok h
          obtain ⟨invoicesBought, hinvoicesBought, h⟩ := except_bind_ok h
          obtain ⟨notifications, hnotifications, h⟩ := except_bind_ok h
          obtain ⟨disputes, hdisputes, h⟩ := except_bind_ok h
          obtain ⟨evidence, hevidence, h⟩ := except_bind_ok h
          obtain ⟨profiles, hprofiles, h⟩ := except_bind_ok h
          obtain ⟨sellerProfiles, hsellerProfiles, h⟩ := except_bind_ok h
          obtain ⟨users, husers, h⟩ := except_bind_ok h
          cases h
          obtain ⟨hsourceMem, hsourceId⟩ := Table.find_spec hsource
          obtain ⟨htargetMem, htargetId⟩ := Table.find_spec htarget
          replace hsourceId : sourceUser.id = source := by simpa using hsourceId
          replace htargetId : targetUser.id = target := by simpa using htargetId
          exact
            { clock := rfl
              authUsers := rfl
              linkRequests := rfl
              timeline := rfl
              audited := ⟨_, rfl⟩
              chatIdentities := rows_updateMany hidentities fun i => by
                simp only [ChatIdentity.reparent, Uuid.merged, beq_iff_eq]
                split <;> rfl
              transactions := by
                dsimp only
                rw [rows_updateMany hbought (g := reparentBuyer source target) fun t => by
                    simp [reparentBuyer],
                  rows_updateMany hsold (g := reparentSeller source target) fun t => by
                    simp [reparentSeller], List.map_map]
                exact List.map_congr_left fun t _ => reparent_seller_buyer t
              payouts := rows_updateMany hpayouts fun p => by
                simp only [reparentPayout, Uuid.merged, beq_iff_eq]
                split <;> rfl
              invoices := by
                dsimp only
                rw [rows_updateMany hinvoicesBought (g := Invoice.reparentBuyer source target)
                    fun i => by simp [Invoice.reparentBuyer],
                  rows_updateMany hinvoicesSold (g := Invoice.reparentSeller source target)
                    fun i => by simp [Invoice.reparentSeller], List.map_map]
                exact List.map_congr_left fun i _ => Invoice.reparent_seller_buyer i
              notifications := rows_updateMany hnotifications fun n => by
                simp only [Notification.reparent, Uuid.merged, beq_iff_eq]
                split <;> rfl
              disputes := rows_updateMany hdisputes fun d => by
                simp only [reparentDispute, Uuid.merged, beq_iff_eq]
                split <;> rfl
              evidence := rows_updateMany hevidence fun e => by
                simp only [Evidence.reparent, Uuid.merged, beq_iff_eq]
                split <;> rfl
              profiles := (mergeProfile_ok hprofiles).1
              sellerProfiles := (mergeSellerProfile_ok hsellerProfiles).1
              otherProfiles := (mergeProfile_ok hprofiles).2
              otherSellerProfiles := (mergeSellerProfile_ok hsellerProfiles).2
              users := ⟨sourceUser, hsourceMem, targetUser, htargetMem, hsourceId, htargetId, by
                dsimp only
                rw [mergeUsers_ok husers, hsourceId, htargetId]⟩ }

/-! ## When a merge commits -/

/-- What a merge needs besides the absence of a collision: no payout in flight, both users, and no number
that both gave to an invoice. -/
structure Clear (source target : Uuid) (w : World) : Prop where
  idle : hasInFlightPayout [source, target] w = false
  absorbed : ∃ u ∈ w.users, u.id = source
  survivor : ∃ u ∈ w.users, u.id = target
  numbers : ∀ i ∈ w.invoices, ∀ j ∈ w.invoices, i.sellerId = source → j.sellerId = target →
    i.number = j.number → i = j

/-- The numbers of two invoices clash after the move just if they did before it. -/
theorem number_clash {i j : Invoice}
    (hij : i.sellerId = source → j.sellerId = target → i.number = j.number → i = j)
    (hji : j.sellerId = source → i.sellerId = target → j.number = i.number → j = i) :
    ((if (i.sellerId == source) = true then { i with sellerId := target } else i).sellerId ==
        (if (j.sellerId == source) = true then { j with sellerId := target } else j).sellerId &&
      (if (i.sellerId == source) = true then { i with sellerId := target } else i).number ==
        (if (j.sellerId == source) = true then { j with sellerId := target } else j).number) =
    (i.sellerId == j.sellerId && i.number == j.number) := by
  by_cases his : i.sellerId = source <;> by_cases hjs : j.sellerId = source
  · simp [his, hjs]
  · have hne : i.sellerId ≠ j.sellerId := fun h => hjs (h ▸ his)
    have hboth : target = j.sellerId → i.number ≠ j.number := fun ht hn =>
      hne (congrArg (fun i : Invoice => i.sellerId) (hij his ht.symm hn))
    rw [Bool.eq_iff_iff]
    simpa [his, hjs, his ▸ hne] using hboth
  · have hne : j.sellerId ≠ i.sellerId := fun h => his (h ▸ hjs)
    have hboth : i.sellerId = target → i.number ≠ j.number := fun ht hn =>
      hne (congrArg (fun i : Invoice => i.sellerId) (hji hjs ht hn.symm))
    rw [Bool.eq_iff_iff]
    simpa [his, hjs, (hjs ▸ hne).symm] using hboth
  · simp [his, hjs]

/-- Re-parented invoices keep apart just if no number occurs on both sides. -/
theorem invoicesSold_iff : (∃ r, updateMany w.invoices (fun i => i.sellerId == source)
      (fun i => { i with sellerId := target }) = .ok r) ↔
    ∀ i ∈ w.invoices, ∀ j ∈ w.invoices, i.sellerId = source → j.sellerId = target →
      i.number = j.number → i = j := by
  constructor
  · rintro ⟨r, hr⟩ i hi j hj hsource htarget hnumber
    have hupdate := updateMany_ok hr
    have hi' := Table.mem_update_of hupdate hi (by simpa using hsource)
    by_cases hsame : j.sellerId = source
    · have hclash : Constrained.clash i j = true := by
        simp [Constrained.clash, hsource, hsame, hnumber]
      exact Table.eq_of_clash hi hj hclash
    · have hj' := Table.mem_update_of_not hupdate hj (by simpa using hsame)
      have heq := Table.eq_of_clash hi' hj' (by simp [Constrained.clash, htarget, hnumber])
      have hid := congrArg (fun i : Invoice => i.id) heq
      exact Table.eq_of_clash hi hj (by simp [Constrained.clash, show i.id = j.id from hid])
  · intro hnumbers
    obtain ⟨t', ht'⟩ := Table.update_isSome (t := w.invoices) (p := fun i => i.sellerId == source)
      (f := fun i => { i with sellerId := target }) fun i hi j hj => by
        refine congrArg₂ (· || ·) ?_ ?_
        · split <;> split <;> rfl
        · exact number_clash (hnumbers i hi j hj) (hnumbers j hj i hi)
    exact ⟨_, updateMany_of_update ht'⟩

theorem mergeProfile_commits (profiles : Table Profile) :
    ∃ r, mergeProfile source target keepProfile profiles = .ok r := by
  unfold mergeProfile
  split
  · exact ⟨_, rfl⟩
  · rename_i sourceProfile hsource
    obtain ⟨hmem, hid⟩ := Table.find_spec hsource
    split
    · rename_i hnone
      obtain ⟨t', ht'⟩ := Table.update_one_isSome (p := fun p => p.userId == source)
        (f := fun p : Profile => { p with userId := target }) hmem hid
        (by simp [Constrained.clash])
        (fun b hb hsel => Table.eq_of_clash hb hmem (by
          simp only [Constrained.clash, beq_iff_eq] at hsel hid ⊢
          exact hsel.trans hid.symm))
        fun b hb _ => by
          have hno := Table.find_none hnone hb
          simp only [beq_eq_false_iff_ne, ne_eq] at hno
          simpa [Constrained.clash] using Ne.symm hno
      exact ⟨_, by rw [updateMany_of_update ht']; rfl⟩
    · exact bind_commits (updateMany_free fun _ _ => rfl) fun _ => ⟨_, rfl⟩

theorem mergeSellerProfile_commits (sellerProfiles : Table SellerProfile) :
    ∃ r, mergeSellerProfile source target sellerProfiles = .ok r := by
  unfold mergeSellerProfile
  split
  · exact ⟨_, rfl⟩
  · rename_i sourceProfile hsource
    obtain ⟨hmem, hid⟩ := Table.find_spec hsource
    split
    · exact ⟨_, rfl⟩
    · rename_i hnone
      obtain ⟨t', ht'⟩ := Table.update_one_isSome (p := isOf source)
        (f := fun p : SellerProfile => { p with userId := target }) hmem hid
        (by simp [Constrained.clash])
        (fun b hb hsel => Table.eq_of_clash hb hmem (by
          simp only [isOf, beq_iff_eq] at hsel hid
          simp [Constrained.clash, hsel, hid]))
        fun b hb hne => by
          have hno := Table.find_none hnone hb
          have hcode : sameValue sourceProfile.providerRecipientCode b.providerRecipientCode =
              false := by
            by_contra hsame
            refine hne (Table.eq_of_clash hmem hb ?_).symm
            simp only [Constrained.clash, Bool.or_eq_true]
            exact .inr (by simpa using hsame)
          simp only [isOf, beq_eq_false_iff_ne, ne_eq] at hno
          simp [Constrained.clash, Ne.symm hno, hcode]
      exact ⟨_, by rw [updateMany_of_update ht']; rfl⟩

theorem mergeUsers_commits {sourceUser targetUser : User} {now : Int} (users : Table User) :
    ∃ r, mergeUsers sourceUser targetUser now users = .ok r := by
  unfold mergeUsers
  refine bind_commits (updateMany_free fun _ _ => rfl) fun filled => ?_
  exact bind_commits (updateMany_free fun _ _ => rfl) fun _ => ⟨_, rfl⟩

/-- **A merge commits** just if the collision found is none or the one overridden, and it is clear. -/
theorem merge_commits_iff : (∃ r, merge source target opts w = .ok r) ↔
    (detectCollision source target w = none ∨
      detectCollision source target w = opts.overrideCollision.map OverrideCollision.kind) ∧
      Clear source target w := by
  constructor
  · rintro ⟨r, h⟩
    unfold merge at h
    dsimp only at h
    split at h
    · cases h
    · rename_i hcollision
      split at h
      · cases h
      · rename_i hidle
        split at h
        · cases h
        · rename_i sourceUser hsource
          split at h
          · cases h
          · rename_i targetUser htarget
            obtain ⟨identities, -, h⟩ := except_bind_ok h
            obtain ⟨sold, -, h⟩ := except_bind_ok h
            obtain ⟨bought, -, h⟩ := except_bind_ok h
            obtain ⟨payouts, -, h⟩ := except_bind_ok h
            obtain ⟨invoicesSold, hinvoices, -⟩ := except_bind_ok h
            obtain ⟨hsourceMem, hsourceId⟩ := Table.find_spec hsource
            obtain ⟨htargetMem, htargetId⟩ := Table.find_spec htarget
            refine ⟨?_, by simpa using hidle, ⟨_, hsourceMem, by simpa using hsourceId⟩,
              ⟨_, htargetMem, by simpa using htargetId⟩, invoicesSold_iff.mp ⟨_, hinvoices⟩⟩
            cases hkind : detectCollision source target w with
            | none => exact .inl rfl
            | some kind => exact .inr (by simpa [hkind] using hcollision)
  · rintro ⟨hcollision, hclear⟩
    obtain ⟨u, hu, rfl⟩ := hclear.absorbed
    obtain ⟨v, hv, rfl⟩ := hclear.survivor
    have found : ∀ u ∈ w.users, (w.users.find fun a => a.id == u.id) = some u := fun u hu =>
      Table.find_eq hu (by simp) fun b hb hid =>
        Table.eq_of_clash hb hu (by simp [Constrained.clash, eq_of_beq hid])
    have hopen : ¬((detectCollision u.id v.id w).isSome &&
        detectCollision u.id v.id w != opts.overrideCollision.map OverrideCollision.kind) = true := by
      rcases hcollision with hnone | heq
      · simp [hnone]
      · simp [heq]
    unfold merge
    simp only [hclear.idle, found u hu, found v hv, Bool.false_eq_true, if_false]
    rw [if_neg hopen]
    refine bind_commits (updateMany_free fun _ _ => rfl) fun identities => ?_
    refine bind_commits (updateMany_free fun _ _ => rfl) fun sold => ?_
    refine bind_commits (updateMany_free fun _ _ => rfl) fun bought => ?_
    refine bind_commits (updateMany_free fun _ _ => rfl) fun payouts => ?_
    refine bind_commits (invoicesSold_iff.mpr hclear.numbers) fun invoicesSold => ?_
    refine bind_commits (updateMany_free fun _ _ => rfl) fun invoicesBought => ?_
    refine bind_commits (updateMany_free fun _ _ => rfl) fun notifications => ?_
    refine bind_commits (updateMany_free fun _ _ => rfl) fun disputes => ?_
    refine bind_commits (updateMany_free fun _ _ => rfl) fun evidence => ?_
    refine bind_commits (mergeProfile_commits _) fun profiles => ?_
    refine bind_commits (mergeSellerProfile_commits _) fun sellerProfiles => ?_
    exact bind_commits (mergeUsers_commits _) fun users => ⟨_, rfl⟩

/-! ## Nothing is left -/

/-- No row refers to the user. -/
structure Absent (source : Uuid) (w : World) : Prop where
  chatIdentities : ∀ i ∈ w.chatIdentities, i.userId ≠ source
  transactions : ∀ t ∈ w.transactions, t.sellerId ≠ source ∧ t.buyerId ≠ some source
  payouts : ∀ p ∈ w.payouts, p.sellerId ≠ source
  invoices : ∀ i ∈ w.invoices, i.sellerId ≠ source ∧ i.buyerId ≠ some source
  notifications : ∀ n ∈ w.notifications, n.userId ≠ source
  disputes : ∀ d ∈ w.disputes, d.openedBy ≠ source
  evidence : ∀ e ∈ w.evidence, e.uploadedBy ≠ source
  profiles : ∀ p ∈ w.profiles, p.userId ≠ source
  sellerProfiles : ∀ p ∈ w.sellerProfiles, p.userId ≠ source

section Absent

variable {a b u : Uuid}

theorem merged_ne {v : Uuid} (hb : b ≠ u) (hv : a ≠ u → v ≠ u) : v.merged a b ≠ u := by
  unfold Uuid.merged
  split
  · exact hb
  · rename_i hva
    intro heq
    exact hv (fun ha => hva (heq.trans ha.symm)) heq

theorem merged_ne_some {v : Option Uuid} (hb : b ≠ u) (hv : a ≠ u → v ≠ some u) :
    (v.map fun v => v.merged a b) ≠ some u := by
  intro heq
  obtain ⟨v, rfl, hmerged⟩ := Option.map_eq_some_iff.mp heq
  exact merged_ne hb (fun ha hvu => hv ha (congrArg some hvu)) hmerged

/-- Rows that were mapped one by one. -/
theorem forall_of_rows {α : Type} [Constrained α] {t t' : Table α} {f : α → α} {φ : α → Prop}
    (h : t'.rows = t.rows.map f) (hf : ∀ a ∈ t, φ (f a)) : ∀ a ∈ t', φ a := by
  intro a ha
  obtain ⟨a₀, ha₀, rfl⟩ := List.mem_map.mp (h ▸ Table.mem_def.mp ha)
  exact hf a₀ ha₀

/-- **After a merge no row refers to whom it absorbed,** nor to whoever had none and absorbed nobody. -/
theorem Merged.absent (hm : Merged a b w w') (hb : b ≠ u) (hu : a ≠ u → Absent u w) :
    Absent u w' where
  chatIdentities := forall_of_rows hm.chatIdentities fun i hi =>
    merged_ne hb fun ha => (hu ha).chatIdentities i hi
  transactions := forall_of_rows hm.transactions fun t ht =>
    ⟨merged_ne hb fun ha => ((hu ha).transactions t ht).1,
      merged_ne_some hb fun ha => ((hu ha).transactions t ht).2⟩
  payouts := forall_of_rows hm.payouts fun p hp => merged_ne hb fun ha => (hu ha).payouts p hp
  invoices := forall_of_rows hm.invoices fun i hi =>
    ⟨merged_ne hb fun ha => ((hu ha).invoices i hi).1,
      merged_ne_some hb fun ha => ((hu ha).invoices i hi).2⟩
  notifications := forall_of_rows hm.notifications fun n hn =>
    merged_ne hb fun ha => (hu ha).notifications n hn
  disputes := forall_of_rows hm.disputes fun d hd => merged_ne hb fun ha => (hu ha).disputes d hd
  evidence := forall_of_rows hm.evidence fun e he => merged_ne hb fun ha => (hu ha).evidence e he
  profiles p hp heq := by
    subst heq
    by_cases ha : a = p.userId
    · exact hm.profiles (ha ▸ hb.symm) p hp ha.symm
    · exact (hu ha).profiles p ((hm.otherProfiles p (Ne.symm ha) hb.symm).mp hp) rfl
  sellerProfiles p hp heq := by
    subst heq
    by_cases ha : a = p.userId
    · exact hm.sellerProfiles (ha ▸ hb.symm) p hp ha.symm
    · exact (hu ha).sellerProfiles p ((hm.otherSellerProfiles p (Ne.symm ha) hb.symm).mp hp) rfl

end Absent

end Meduman.Linking
