import Meduman.Joint.Owners

/-!
# A user whom no row names

Once no row names a user, none does again, as long as nobody acts for them and nobody is merged into them.

* `Clean` : no row of any service names the user, who is stored
* **`exec_clean`**, `drift_clean` : what one operation keeps of it, and what happens elsewhere
* `actsFor_cons` : then nothing that is read makes a call act for them
* `spares`, **`unclaimed_run`** : and so it stays
-/

set_option autoImplicit false

namespace Meduman.Linking

open Effect Chat

variable {source : Uuid} {op : Op} {f : Fate Supply} {u w : World} {a : Except Err op.Ans}

/-- A user stays stored. -/
theorem stored_exec (he : backend.exec op f u = some (a, w)) (hu : ∃ v ∈ u.users, v.id = source) :
    ∃ v ∈ w.users, v.id = source := by
  cases exec_changes he with
  | identify owner write =>
      rcases owner with ⟨rfl, -⟩ | ⟨-, hcreate⟩
      · exact hu
      · obtain ⟨v, hv, hid⟩ := hu
        exact ⟨v, (Table.mem_create hcreate).mpr (.inl hv), hid⟩
  | merge merged =>
      obtain ⟨v, hv, rfl⟩ := hu
      obtain ⟨v', hv', hid, -⟩ := merged_user_of (merge_merged merged) hv
      exact ⟨v', hv', hid⟩
  | _ => exact hu

/-- **An operation of the linking service** gives no row to a user who has none. -/
theorem exec_absent (he : backend.exec op f u = some (a, w)) (hown : op.owner ≠ some source)
    (hinto : ∀ s t opts, op = .mergeAccounts s t opts → t ≠ source) (hu : Absent source u) :
    Absent source w := by
  cases exec_changes he with
  | identify owner write =>
      have hrows := Table.forall_create write (fun heq => hown (congrArg some heq)) hu.chatIdentities
      exact { hu with chatIdentities := hrows }
  | merge merged => exact (merge_merged merged).absent (hinto _ _ _ rfl) fun _ => hu
  | _ => exact { hu with }

/-- A user who is stored is not minted again. -/
theorem minted_ne {e : Event Op.Ans Err} (he : backend.exec e.op f u = some (e.ans, w))
    (hu : ∃ v ∈ u.users, v.id = source) : minted e ≠ some source := by
  obtain ⟨v, hv, rfl⟩ := hu
  intro hminted
  obtain ⟨op, a⟩ := e
  unfold minted at hminted
  split at hminted
  · rename_i email id heq
    cases heq
    cases hminted
    exact (createUser_ok he).2.1 v hv rfl
  · cases hminted

end Meduman.Linking

namespace Meduman.Joint

open Effect
open Linking (Absent)

variable {source : Uuid} {u w : World}

/-- No row of any service names the user, who is stored. -/
structure Clean (source : Uuid) (w : World) : Prop where
  stored : ∃ v ∈ w.accounts.users, v.id = source
  core : Disowned source w.core
  chatIdentities : ∀ i ∈ w.accounts.chatIdentities, i.userId ≠ source
  buyers : ∀ i ∈ w.accounts.invoices, i.buyerId ≠ some source
  notifications : ∀ n ∈ w.accounts.notifications, n.userId ≠ source
  evidence : ∀ e ∈ w.accounts.evidence, e.uploadedBy ≠ source
  profiles : ∀ p ∈ w.accounts.profiles, p.userId ≠ source

/-- The buyer of an invoice, as the linking service sees it. -/
theorem buyer_ne (hu : ∀ i ∈ w.accounts.invoices, i.buyerId ≠ some source) {i : Linking.Invoice}
    (hi : i ∈ w.linking.invoices) : i.buyerId ≠ some source := by
  obtain ⟨j, -, rfl⟩ := List.mem_map.mp hi
  intro heq
  obtain ⟨k, hfind, hbuyer⟩ := Option.bind_eq_some_iff.mp heq
  exact hu k (Table.find_spec hfind).1 hbuyer

/-- **Nothing that the linking service sees** refers to them. -/
theorem Clean.absent (h : Clean source w) : Absent source w.linking where
  chatIdentities := h.chatIdentities
  transactions := h.core.transactions
  payouts := h.core.payouts
  invoices i hi := by
    refine ⟨?_, buyer_ne h.buyers hi⟩
    obtain ⟨j, hj, rfl⟩ := List.mem_map.mp hi
    exact h.core.invoices j hj
  notifications := h.notifications
  disputes := h.core.disputes
  evidence := h.evidence
  profiles := h.profiles
  sellerProfiles := h.core.sellerProfiles

theorem Clean.stored_linking (h : Clean source w) : ∃ v ∈ w.linking.users, v.id = source := by
  obtain ⟨v, hv, hid⟩ := h.stored
  exact ⟨_, List.mem_map_of_mem hv, hid⟩

/-- What the linking service leaves. -/
theorem clean_putLinking {l : Linking.World} (hl : Absent source l)
    (hstored : ∃ v ∈ l.users, v.id = source) : Clean source (u.putLinking l) where
  stored := hstored
  core :=
    { transactions := hl.transactions
      payouts := hl.payouts
      invoices := fun i hi => by
        obtain ⟨j, hj, rfl⟩ := List.mem_map.mp hi
        exact (hl.invoices j hj).1
      disputes := hl.disputes
      sellerProfiles := hl.sellerProfiles }
  chatIdentities := hl.chatIdentities
  buyers i hi := (hl.invoices i hi).2
  notifications := hl.notifications
  evidence := hl.evidence
  profiles := hl.profiles

/-! ## One operation -/

theorem core_clean {op : Meduman.Op} {o : Outcome} {a : Except Meduman.Err op.Ans} {c : Meduman.World}
    (he : Meduman.exec op o u.core = some (a, c)) (hown : op.owner ≠ some source)
    (hu : Clean source u) : Clean source { u with core := c } :=
  { hu with core := exec_disowned he hown hu.core }

theorem linking_clean {op : Linking.Op} {o : Dialog.Choice} {a : Except Dialog.Err op.Ans}
    (he : Dialog.exec (.linking op) o u = some (a, w)) (hown : op.owner ≠ some source)
    (hinto : ∀ s t opts, op = .mergeAccounts s t opts → t ≠ source) (hu : Clean source u) :
    Clean source w := by
  obtain ⟨f, a₀, l, -, hexec, -, ⟨rfl, -⟩ | rfl⟩ := Dialog.exec_linking he
  · exact hu
  · exact clean_putLinking (Linking.exec_absent hexec hown hinto hu.absent)
      (Linking.stored_exec hexec hu.stored_linking)

theorem sellers_clean {op : Sellers.Op} {o : Dialog.Choice} {a : Except Dialog.Err op.Ans}
    (he : Dialog.exec (.sellers op) o u = some (a, w)) (hown : op.owner ≠ some source)
    (hu : Clean source u) : Clean source w := by
  obtain ⟨f, a₀, s, hexec, -, rfl⟩ := Dialog.exec_sellers he
  have hprofiles : ∀ p ∈ s.sellerProfiles, p.userId ≠ source := by
    refine Backend.exec_keeps (P := fun s : Sellers.World => ∀ p ∈ s.sellerProfiles, p.userId ≠ source)
      hexec hu.core.sellerProfiles fun t _ => ?_
    cases op with
    | sellerProfileCreate userId =>
        simp only [Sellers.backend, Sellers.effect, Sellers.createProfile]
        split
        · exact hu.core.sellerProfiles
        · split
          · exact hu.core.sellerProfiles
          · exact Table.forall_create ‹_› (fun heq => hown (congrArg some heq)) hu.core.sellerProfiles
    | sellerProfileUpdate userId d =>
        simp only [Sellers.backend, Sellers.effect, Sellers.updateProfile]
        split
        · exact hu.core.sellerProfiles
        · split
          · exact hu.core.sellerProfiles
          · rename_i hwrite
            exact Table.forall_update hwrite (fun p hp _ => hu.core.sellerProfiles p hp)
              hu.core.sellerProfiles
    | _ => exact hu.core.sellerProfiles
  exact { hu with core := { hu.core with sellerProfiles := hprofiles } }

theorem chat_clean {op : Dialog.ChatOp} {o : Dialog.Choice} {a : Except Dialog.Err op.Ans}
    (he : Dialog.exec (.chat op) o u = some (a, w))
    (hown : Dialog.Op.owner (.chat op) ≠ some source) (hu : Clean source u) : Clean source w := by
  obtain ⟨f, -, hexec⟩ := Dialog.exec_chat he
  refine Backend.exec_keeps (P := Clean source) hexec hu fun s _ => ?_
  cases op with
  | chatSessionUpsert id t =>
      simp only [Dialog.backend, Dialog.effect, Dialog.upsertSession]
      split <;> exact { hu with }
  | chatSessionUpdate id d t =>
      simp only [Dialog.backend, Dialog.effect, Dialog.updateSessionRow]
      split
      · exact hu
      · split <;> exact { hu with }
  | evidenceCreate d =>
      simp only [Dialog.backend, Dialog.effect]
      split
      · exact hu
      · rename_i hwrite
        have hrows := Table.forall_create hwrite (fun heq => hown (congrArg some heq)) hu.evidence
        exact { hu with evidence := hrows }
  | _ => exact { hu with }

theorem web_clean {op : Web.WebOp} {f : Fate Web.Supply} {a : Except Web.Err op.Ans}
    (he : Web.backend.exec op f u = some (a, w)) (hown : Web.Op.owner (.web op) ≠ some source)
    (hu : Clean source u) : Clean source w := by
  refine Backend.exec_keeps (P := Clean source) he hu fun s _ => ?_
  cases op with
  | evidenceCreate d =>
      simp only [Web.backend, Web.effect]
      split
      · split
        · exact hu
        · rename_i hwrite
          have hrows := Table.forall_create hwrite (fun heq => hown (congrArg some heq)) hu.evidence
          exact { hu with evidence := hrows }
      · exact hu
  | evidenceFindUnique id =>
      simp only [Web.backend, Web.effect]
      split
      · exact hu
      · split <;> exact hu
  | _ => exact hu

theorem notify_clean {op : Notify.Op} {f : Fate Uuid} {a : Except Notify.Err op.Ans}
    (he : Notify.backend.exec op f u = some (a, w)) (hown : op.owner ≠ some source)
    (hu : Clean source u) : Clean source w := by
  refine Backend.exec_keeps (P := Clean source) he hu fun s _ => ?_
  cases op with
  | notificationCreate d =>
      simp only [Notify.backend, Notify.effect]
      split
      · exact hu
      · rename_i hwrite
        have hrows := Table.forall_create hwrite (fun heq => hown (congrArg some heq)) hu.notifications
        exact { hu with notifications := hrows }
  | notificationUpdate id status =>
      simp only [Notify.backend, Notify.effect]
      split
      · exact hu
      · split
        · exact hu
        · rename_i hwrite
          have hrows := Table.forall_update hwrite (fun n hn _ => hu.notifications n hn) hu.notifications
          exact { hu with notifications := hrows }
  | _ => exact hu

/-- The operation merges the one user into the other. -/
abbrev mergeOp (source target : Uuid) (opts : Linking.MergeOptions) : Op :=
  .web (.dialog (.linking (.mergeAccounts source target opts)))

/-- An operation of the dialog. -/
theorem dialog_clean {op : Dialog.Op} {o : Dialog.Choice} {a : Except Dialog.Err op.Ans}
    (he : Dialog.exec op o u = some (a, w)) (hown : op.owner ≠ some source)
    (hinto : ∀ s t opts, op = .linking (.mergeAccounts s t opts) → t ≠ source)
    (hu : Clean source u) : Clean source w := by
  cases op with
  | core op =>
      obtain ⟨f, a₀, -, hexec, -, hw⟩ := Dialog.exec_core he
      rw [hw]
      exact core_clean hexec hown hu
  | linking op =>
      exact linking_clean he hown (fun s t opts heq => hinto s t opts (congrArg _ heq)) hu
  | otp op =>
      rw [Dialog.exec_otp he]
      exact { hu with }
  | gateway op =>
      obtain ⟨f, a₀, -, -, hw⟩ := Dialog.exec_gateway he
      rw [hw]
      exact { hu with }
  | sellers op => exact sellers_clean he hown hu
  | chat op => exact chat_clean he hown hu

/-- Whose operation it is. -/
theorem exec_dialog {op : Dialog.Op} {o : Choice} {a : Except Err op.Ans}
    (he : exec (.web (.dialog op)) o u = some (a, w)) :
    ∃ c a₀, Dialog.exec op c u = some (a₀, w) ∧ a = (a₀.mapError Web.Err.dialog).mapError Err.web := by
  cases o with
  | notify f => cases he
  | web c =>
      obtain ⟨⟨a₁, w₁⟩, hexec, heq⟩ := Option.map_eq_some_iff.mp he
      cases heq
      cases c with
      | web f => cases hexec
      | dialog c =>
          obtain ⟨⟨a₀, w₀⟩, hdialog, heq⟩ := Option.map_eq_some_iff.mp hexec
          cases heq
          exact ⟨c, a₀, hdialog, rfl⟩

/-- **An operation that makes somebody else an owner,** or nobody. -/
theorem exec_clean {op : Op} {o : Choice} {a : Except Err op.Ans}
    (he : exec op o u = some (a, w)) (hown : op.owner ≠ some source)
    (hinto : ∀ s t opts, op = mergeOp s t opts → t ≠ source) (hu : Clean source u) :
    Clean source w := by
  cases op with
  | notify op =>
      cases o with
      | web f => cases he
      | notify f =>
          obtain ⟨⟨a₀, w₀⟩, hexec, heq⟩ := Option.map_eq_some_iff.mp he
          cases heq
          exact notify_clean hexec hown hu
  | web op =>
      cases op with
      | dialog op =>
          obtain ⟨c, a₀, hexec, -⟩ := exec_dialog he
          exact dialog_clean hexec hown (fun s t opts heq => hinto s t opts (by rw [heq])) hu
      | web op =>
          cases o with
          | notify f => cases he
          | web c =>
              obtain ⟨⟨a₀, w₀⟩, hexec, heq⟩ := Option.map_eq_some_iff.mp he
              cases heq
              cases c with
              | dialog f => cases hexec
              | web f => exact web_clean hexec hown hu

/-! ## What happens elsewhere -/

theorem core_drift {m : Meduman.Move} {c : Meduman.World} (hm : Meduman.drift m u.core = some c)
    (hmerge : ∀ s t, m ≠ .merge s t) (hothers : ∀ a b c d, m ≠ .others a b c d)
    (hu : Disowned source u.core) : Disowned source c := by
  cases m with
  | merge s t => exact absurd rfl (hmerge s t)
  | others a b c d => exact absurd rfl (hothers a b c d)
  | charge reference =>
      simp only [Meduman.drift] at hm
      split at hm
      · cases hm
      · cases hm
        exact { hu with }
  | _ =>
      cases hm
      exact { hu with }

theorem drift_clean {m : Move} (hm : drift m u = some w) (hu : Clean source u) : Clean source w := by
  cases m with
  | core m =>
      cases m with
      | merge s t => cases hm
      | others a b c d => cases hm
      | _ =>
          simp only [drift] at hm
          obtain ⟨c, hc, rfl⟩ := Option.map_eq_some_iff.mp hm
          exact { hu with core := core_drift hc (fun _ _ => nofun) (fun _ _ _ _ => nofun) hu.core }
  | signUp id email =>
      obtain ⟨l, hl, rfl⟩ := Option.map_eq_some_iff.mp hm
      obtain ⟨authUsers, -, hl⟩ := Option.bind_eq_some_iff.mp hl
      obtain ⟨users, husers, hl⟩ := Option.bind_eq_some_iff.mp hl
      rw [← Option.some.inj hl]
      obtain ⟨v, hv, hid⟩ := hu.stored_linking
      exact clean_putLinking { hu.absent with } ⟨v, (Table.mem_create husers).mpr (.inl hv), hid⟩
  | createSeller id email merchantId =>
      obtain ⟨users, husers, hm⟩ := Option.bind_eq_some_iff.mp hm
      obtain ⟨sellerProfiles, hprofiles, hm⟩ := Option.bind_eq_some_iff.mp hm
      rw [← Option.some.inj hm]
      obtain ⟨v, hv, hid⟩ := hu.stored_linking
      refine clean_putLinking { hu.absent with sellerProfiles := ?_ }
        ⟨v, (Table.mem_create husers).mpr (.inl hv), hid⟩
      refine Table.forall_create hprofiles (fun heq => ?_) hu.absent.sellerProfiles
      -- the account that is opened is new, and this one is stored
      have hclash := Table.create_no_clash husers hv
      simp [Constrained.clash, merchantUser, Linking.webUser, hid, ← heq] at hclash

/-! ## What a call reads -/

section Performed

/-- What the linking service sees was performed there. -/
theorem linking_performed {e : Event Dialog.Op.Ans Dialog.Err} {o : Dialog.Choice}
    (he : Dialog.exec e.op o u = some (e.ans, w)) {e' : Event Linking.Op.Ans Linking.Err}
    (he' : Dialog.linkingEvent e = some e') :
    ∃ f l, Linking.backend.exec e'.op f u.linking = some (e'.ans, l) := by
  obtain ⟨op, a⟩ := e
  cases op with
  | linking op =>
      cases he'
      obtain ⟨f, a₀, l, -, hexec, rfl, -⟩ := Dialog.exec_linking he
      cases a₀ <;> exact ⟨f, l, hexec⟩
  | _ => cases he'

theorem core_performed {e : Event Dialog.Op.Ans Dialog.Err} {o : Dialog.Choice}
    (he : Dialog.exec e.op o u = some (e.ans, w)) {e' : Event Meduman.Op.Ans Meduman.Err}
    (he' : coreEvent e = some e') : ∃ f, Meduman.exec e'.op f u.core = some (e'.ans, w.core) := by
  obtain ⟨op, a⟩ := e
  cases op with
  | core op =>
      cases he'
      obtain ⟨f, a₀, -, hexec, rfl, -⟩ := Dialog.exec_core he
      cases a₀ <;> exact ⟨f, hexec⟩
  | _ => cases he'

theorem dialog_performed {e : Event Web.Op.Ans Web.Err} {o : Web.Choice}
    (he : Web.exec e.op o u = some (e.ans, w)) {e' : Event Dialog.Op.Ans Dialog.Err}
    (he' : Web.dialogEvent e = some e') : ∃ c, Dialog.exec e'.op c u = some (e'.ans, w) := by
  obtain ⟨op, a⟩ := e
  cases op with
  | web op => cases he'
  | dialog op =>
      cases he'
      cases o with
      | web f => cases he
      | dialog c =>
          obtain ⟨⟨a₀, w₀⟩, hexec, heq⟩ := Option.map_eq_some_iff.mp he
          cases heq
          cases a₀ <;> exact ⟨c, hexec⟩

theorem web_performed {e : Event Op.Ans Err} {o : Choice} (he : exec e.op o u = some (e.ans, w))
    {e' : Event Web.Op.Ans Web.Err} (he' : webEvent e = some e') :
    ∃ c, Web.exec e'.op c u = some (e'.ans, w) := by
  obtain ⟨op, a⟩ := e
  cases op with
  | notify op => cases he'
  | web op =>
      cases he'
      cases o with
      | notify f => cases he
      | web c =>
          obtain ⟨⟨a₀, w₀⟩, hexec, heq⟩ := Option.map_eq_some_iff.mp he
          cases heq
          cases a₀ <;> exact ⟨c, hexec⟩

theorem notify_performed {e : Event Op.Ans Err} {o : Choice} (he : exec e.op o u = some (e.ans, w))
    {e' : Event Notify.Op.Ans Notify.Err} (he' : notifyEvent e = some e') :
    ∃ f, Notify.backend.exec e'.op f u = some (e'.ans, w) := by
  obtain ⟨op, a⟩ := e
  cases op with
  | web op => cases he'
  | notify op =>
      cases he'
      cases o with
      | web c => cases he
      | notify f =>
          obtain ⟨⟨a₀, w₀⟩, hexec, heq⟩ := Option.map_eq_some_iff.mp he
          cases heq
          cases a₀ <;> exact ⟨f, hexec⟩

end Performed

/-- Nobody is minted who was stored. -/
theorem nameless_cons {e : Event Dialog.Op.Ans Dialog.Err} {o : Dialog.Choice}
    {h : History Dialog.Op.Ans Dialog.Err} (he : Dialog.exec e.op o u = some (e.ans, w))
    (hu : Clean source u) (hh : Linking.nameless (h.filterMap Dialog.linkingEvent) source = false) :
    Linking.nameless ((e :: h).filterMap Dialog.linkingEvent) source = false := by
  cases hlinking : Dialog.linkingEvent e with
  | none => rwa [List.filterMap_cons_none hlinking]
  | some e' =>
      obtain ⟨f, l, hexec⟩ := linking_performed he hlinking
      have hminted := Linking.minted_ne hexec hu.stored_linking
      rw [List.filterMap_cons_some hlinking]
      simp only [Linking.nameless, List.any_cons, beq_eq_false_iff_ne.mpr hminted, Bool.false_or,
        Bool.not_or] at hh ⊢
      cases hany : (h.filterMap Dialog.linkingEvent).any fun e => Linking.minted e == some source with
      | false => rfl
      | true =>
          rw [hany, Bool.true_and] at hh
          rw [hh, Bool.and_false, Bool.and_false]

/-- What a chat message reads. -/
theorem message_cons {e : Event Dialog.Op.Ans Dialog.Err} {o : Dialog.Choice}
    {h : History Dialog.Op.Ans Dialog.Err} {data : Chat.ChatInboundJobData}
    (he : Dialog.exec e.op o u = some (e.ans, w)) (hu : Clean source u) (hw : Clean source w)
    (hh : Dialog.writesFor data h source = false) : Dialog.writesFor data (e :: h) source = false := by
  obtain ⟨hnameless, hread⟩ := Bool.or_eq_false_iff.mp hh
  refine Bool.or_eq_false_iff.mpr ⟨nameless_cons he hu hnameless, ?_⟩
  have hidentity : ((Dialog.identityRead e).any fun i => i.userId == source) = false := by
    cases hi : Dialog.identityRead e with
    | none => rfl
    | some i => exact beq_eq_false_iff_ne.mpr (hw.chatIdentities i (Dialog.identityRead_mem he hi))
  rwa [List.any_cons, hidentity, Bool.false_or]

/-- What a call of the core reads. -/
theorem owned_cons {e : Event Dialog.Op.Ans Dialog.Err} {o : Dialog.Choice}
    {h : History Dialog.Op.Ans Dialog.Err} {c : Meduman.Call}
    (he : Dialog.exec e.op o u = some (e.ans, w)) (hu : Clean source u)
    (hh : c.ownsFor (h.filterMap coreEvent) source = false) :
    c.ownsFor ((e :: h).filterMap coreEvent) source = false := by
  cases hcore : coreEvent e with
  | none => rwa [List.filterMap_cons_none hcore]
  | some e' =>
      obtain ⟨f, hexec⟩ := core_performed he hcore
      rw [List.filterMap_cons_some hcore]
      exact ownsFor_cons hh fun t ht => (hu.core.transactions t (read_stored hexec ht)).1

/-- What a request reads. -/
theorem request_cons {e : Event Web.Op.Ans Web.Err} {o : Web.Choice} {h : Web.Hist} {c : Web.Call}
    (he : Web.exec e.op o u = some (e.ans, w)) (hu : Clean source u) (hw : Clean source w)
    (hh : c.writesFor h source = false) : c.writesFor (e :: h) source = false := by
  cases hdialog : Web.dialogEvent e with
  | none =>
      have hinner : Web.inner (e :: h) = Web.inner h := List.filterMap_cons_none hdialog
      cases c with
      | message data => simpa only [Web.Call.writesFor, hinner] using hh
      | link call => simpa only [Web.Call.writesFor, hinner] using hh
      | _ => exact hh
  | some e' =>
      obtain ⟨f, hexec⟩ := dialog_performed he hdialog
      have hinner : Web.inner (e :: h) = e' :: Web.inner h := List.filterMap_cons_some hdialog
      cases c with
      | message data =>
          simp only [Web.Call.writesFor, hinner] at hh ⊢
          exact message_cons hexec hu hw hh
      | link call =>
          simp only [Web.Call.writesFor, hinner] at hh ⊢
          exact nameless_cons hexec hu hh
      | _ => exact hh

/-- What a delivery reads. -/
theorem delivery_cons {e : Event Notify.Op.Ans Notify.Err} {f : Fate Uuid} {h : Notify.Hist}
    (he : Notify.backend.exec e.op f u = some (e.ans, w)) (hu : Clean source u)
    (hh : Notify.writesFor h source = false) : Notify.writesFor (e :: h) source = false := by
  have hbuyer : Notify.buyerRead e ≠ some source := by
    obtain ⟨op, a⟩ := e
    intro hread
    unfold Notify.buyerRead at hread
    split at hread
    · rename_i id found heq
      cases heq
      obtain ⟨_, -, heff⟩ := Backend.exec_ok he
      obtain ⟨hfound, -⟩ := Prod.ext_iff.mp heff
      obtain ⟨r, rfl, hr⟩ := Option.bind_eq_some_iff.mp hread
      obtain ⟨t, hfind, rfl⟩ := Option.map_eq_some_iff.mp (Except.ok.inj hfound)
      exact (hu.core.transactions t (Table.find_spec hfind).1).2 hr
    · rename_i id found heq
      cases heq
      obtain ⟨_, -, heff⟩ := Backend.exec_ok he
      obtain ⟨hfound, -⟩ := Prod.ext_iff.mp heff
      obtain ⟨i, rfl, hi⟩ := Option.bind_eq_some_iff.mp hread
      exact buyer_ne hu.buyers (Table.find_spec (Except.ok.inj hfound)).1 hi
    · cases hread
  rw [Notify.writesFor, List.any_cons, beq_eq_false_iff_ne.mpr hbuyer, Bool.false_or]
  exact hh

/-- **Nothing that is read** makes a call act for a user whom no row names. -/
theorem actsFor_cons {c : Call} {h : Hist} {e : Event Op.Ans Err} {o : Choice}
    (he : exec e.op o u = some (e.ans, w)) (hu : Clean source u) (hw : Clean source w)
    (hh : c.actsFor h source = false) : c.actsFor (e :: h) source = false := by
  have hweb {P : Web.Hist → Bool} (hold : P (webEvents h) = false)
      (hnew : ∀ e' c', Web.exec e'.op c' u = some (e'.ans, w) → P (e' :: webEvents h) = false) :
      P (webEvents (e :: h)) = false := by
    cases hseen : webEvent e with
    | none => rwa [webEvents, List.filterMap_cons_none hseen]
    | some e' =>
        obtain ⟨c', hexec⟩ := web_performed he hseen
        rw [webEvents, List.filterMap_cons_some hseen]
        exact hnew e' c' hexec
  cases c with
  | core call =>
      refine hweb (P := fun h => call.ownsFor ((Web.inner h).filterMap coreEvent) source) hh
        fun e' c' hexec => ?_
      cases hdialog : Web.dialogEvent e' with
      | none => rwa [Web.inner, List.filterMap_cons_none hdialog]
      | some e'' =>
          obtain ⟨f, hexec⟩ := dialog_performed hexec hdialog
          rw [Web.inner, List.filterMap_cons_some hdialog]
          exact owned_cons hexec hu hh
  | web call =>
      exact hweb (P := fun h => call.writesFor h source) hh fun e' c' hexec =>
        request_cons hexec hu hw hh
  | seller userId => exact hh
  | onboard call => exact hh
  | deliverOtpCode _ | deliverInvoice _ =>
      cases hseen : notifyEvent e with
      | none => rwa [Call.actsFor, notifyEvents, List.filterMap_cons_none hseen]
      | some e' =>
          obtain ⟨f, hexec⟩ := notify_performed he hseen
          rw [Call.actsFor, notifyEvents, List.filterMap_cons_some hseen]
          exact delivery_cons hexec hu hh

/-! ## Every run -/

variable {env : Env} {x y z : Config (service env)}

/-- No call arrives that acts for the user, and nobody is merged into them. -/
def spares (env : Env) (source : Uuid) : Policy (service env) := fun x l =>
  match l with
  | .arrive c => !c.actsFor [] source
  | .perform i _ => match x.pending i with
      | some (_, ⟨.web (.dialog (.linking (.mergeAccounts _ target _))), _⟩) => target != source
      | _ => true
  | _ => true

/-- No call in progress acts for the user. -/
def Idle (source : Uuid) (x : Config (service env)) : Prop :=
  ∀ p ∈ x.procs, p.InProgress → Call.actsFor p.call p.hist source = false

/-- No row names the user, and no call in progress acts for them. -/
structure Unclaimed (source : Uuid) (x : Config (service env)) : Prop where
  rows : Clean source x.world
  calls : Idle source x

theorem unclaimed_step {l : Label (service env)} (hx : Reachable env x) (hU : Unclaimed source x)
    (hP : spares env source x l = true) (hs : x.Step y l) : Unclaimed source y := by
  cases hs with
  | arrive hadm hw hprocs =>
      refine ⟨hw ▸ hU.rows, fun p hp hlive => ?_⟩
      rw [hprocs] at hp
      rcases List.mem_append.mp hp with hp | hp
      · exact hU.calls p hp hlive
      · rw [List.mem_singleton.mp hp]
        simpa [spares] using hP
  | @perform i o p op k a hp hk he hprocs =>
      replace he : exec op o x.world = some (a, y.world) := he
      have hmem := List.mem_of_getElem? hp
      have hspared := hU.calls p hmem ⟨op, k, hk⟩
      have hrows : Clean source y.world := by
        refine exec_clean he (fun hown => ?_) (fun s t opts heq => ?_) hU.rows
        · rw [owned_of_reaches hx hmem hk source hown] at hspared
          cases hspared
        · subst heq
          simp only [spares, Config.pending_eq hp hk] at hP
          exact bne_iff_ne.mp hP
      refine ⟨hrows, fun q hq hlive => ?_⟩
      obtain ⟨j, hj⟩ := List.getElem?_of_mem hq
      rw [hprocs] at hj
      rcases getElem?_set_cases hp hj with ⟨rfl, rfl⟩ | ⟨-, hj⟩
      · exact actsFor_cons (e := ⟨op, a⟩) he hU.rows hrows hspared
      · exact hU.calls q (List.mem_of_getElem? hj) hlive
  | @crash i p hp hw hprocs =>
      refine ⟨hw ▸ hU.rows, fun q hq hlive => ?_⟩
      obtain ⟨j, hj⟩ := List.getElem?_of_mem hq
      rw [hprocs] at hj
      rcases getElem?_set_cases hp hj with ⟨rfl, rfl⟩ | ⟨-, hj⟩
      · obtain ⟨op, k, hk⟩ := hlive
        cases hk
      · exact hU.calls q (List.mem_of_getElem? hj) hlive
  | drift hm hprocs => exact ⟨drift_clean hm hU.rows, fun p hp => hU.calls p (hprocs ▸ hp)⟩

/-- **So it stays,** whatever else happens. -/
theorem unclaimed_run (hx : Reachable env x) (hU : Unclaimed source x)
    (h : Follows (spares env source) x y) : Unclaimed source y :=
  h.invariant (I := fun z => Unclaimed source z) hU fun hu hI hP hl =>
    unclaimed_step (hx.trans hu) hI hP (Config.next_step hl)

end Meduman.Joint
