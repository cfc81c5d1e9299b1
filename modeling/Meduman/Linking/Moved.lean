import Meduman.Joint.Disown

/-!
# What a merge moves, and what comes after it

A merge moves every row that names the absorbed user. What a call read before it, and what is asked for in
the absorbed user's name after it, no guard looks at.

* `linking_putLinking` : what the merge leaves is what every service sees
* `Joint.Merges` : a step that carries a merge out
* **`ownership_moves`** : the merge, and every run after it in which nobody acts for the absorbed user
* `released_to_absorbed` : a release that read its seller before the merge
-/

set_option autoImplicit false

namespace Meduman.Joint

open Effect
open Linking (Absent Merged MergeOptions MergeReport merge)

/-! ## What the services see of it -/

/-- The users, with the role flags they have. -/
theorem withRoleFlags_coreUsers (users : Table Linking.User) :
    Dialog.withRoleFlags (Dialog.coreUsers users) users = users := by
  refine Table.ext_rows ?_
  show users.rows.map _ = users.rows
  refine (List.map_congr_left fun u hu => ?_).trans (List.map_id _)
  have hrow : (⟨u.id, u.roleFlags⟩ : Meduman.User) ∈ Dialog.coreUsers users :=
    List.mem_map.mpr ⟨u, hu, rfl⟩
  have hfind : ((Dialog.coreUsers users).find fun c => c.id == u.id) = some ⟨u.id, u.roleFlags⟩ :=
    Table.find_eq hrow (by simp) fun b hb hid =>
      Table.eq_of_clash hb hrow (by simpa [Constrained.clash] using hid)
  rw [hfind]
  rfl

/-- The invoices, with the buyers they have. -/
theorem withBuyers_map (invoices : Table Linking.Invoice) :
    Dialog.withBuyers invoices (invoices.map Linking.Invoice.toInvoice fun _ _ h => h) = invoices := by
  refine Table.ext_rows ?_
  show (invoices.rows.map Linking.Invoice.toInvoice).map _ = invoices.rows
  rw [List.map_map]
  refine (List.map_congr_left fun i hi => ?_).trans (List.map_id _)
  have hfind : (invoices.find fun k => k.id == i.id) = some i :=
    Table.find_eq hi (by simp) fun b hb hid =>
      Table.eq_of_clash hb hi (by simp [Constrained.clash, beq_iff_eq.mp hid])
  show (⟨i.toInvoice, (invoices.find fun k => k.id == i.id).bind Linking.Invoice.buyerId⟩ :
    Linking.Invoice) = i
  rw [hfind]
  rfl

/-- **What the linking service leaves is what it sees.** -/
theorem linking_putLinking {l : Linking.World} {u : World} (hclock : l.clock = u.core.clock) :
    (u.putLinking l).linking = l := by
  have husers := withRoleFlags_coreUsers l.users
  have hinvoices := withBuyers_map l.invoices
  simp only [Dialog.World.linking, Dialog.World.putLinking, husers, hinvoices, ← hclock]

/-! ## A merge -/

variable {env : Env} {x y z : Config (service env)} {source target : Uuid}

/-- A step carries out the merge of the one user into the other. -/
def Merges (source target : Uuid) (x y : Config (service env)) : Prop :=
  ∃ i o p opts k report l, x.next Guard.free (.perform i o) = some y ∧ x.procs[i]? = some p ∧
    p.prog = some (.call (mergeOp source target opts) k) ∧
    merge source target opts (Dialog.World.linking x.world) = .ok (report, l) ∧
    y.world = Dialog.World.putLinking l x.world

/-- A merge whose guards pass is carried out. -/
theorem merges_served {i : Nat} {p : Process (service env)} {opts : MergeOptions}
    {k : Except Err MergeReport → Program Reply} {report : MergeReport} {l : Linking.World}
    (s : Linking.Supply) (hp : x.procs[i]? = some p)
    (hk : p.prog = some (.call (mergeOp source target opts) k))
    (hm : merge source target opts (Dialog.World.linking x.world) = .ok (report, l)) :
    ∃ y, x.next Guard.free (.perform i (.web (.dialog (.linking (.served s))))) = some y ∧
      Merges source target x y := by
  have heff : Linking.effect s (Dialog.World.linking x.world) (.mergeAccounts source target opts) =
      (.ok report, l) := by
    simp only [Linking.effect, hm]
  have hexec : exec (mergeOp source target opts) (.web (.dialog (.linking (.served s)))) x.world =
      some (.ok report, Dialog.World.putLinking l x.world) := by
    simp only [exec, Web.exec, Dialog.exec, Linking.backend, Backend.exec, Linking.Op.fits, if_true,
      heff, Option.map_some]
    rfl
  obtain ⟨call, hist, prog⟩ := p
  cases hk
  replace hexec : (service env).exec (mergeOp source target opts)
      (.web (.dialog (.linking (.served s)))) x.world = some (.ok report, _) := hexec
  obtain ⟨y, hy, hworld, -⟩ := Config.next_serve hp hexec
  exact ⟨y, hy, i, _, _, opts, k, report, l, hy, hp, rfl, hm, hworld⟩

theorem Merges.merged (h : Merges source target x y) : Merged source target
    (Dialog.World.linking x.world) (Dialog.World.linking y.world) := by
  obtain ⟨i, o, p, opts, k, report, l, -, -, -, hm, hworld⟩ := h
  have hmerged := Linking.merge_merged hm
  rw [hworld, linking_putLinking (show l.clock = (Dialog.World.core x.world).clock from hmerged.clock)]
  exact hmerged

/-- A merge leaves the absorbed user without rows. -/
theorem Merges.clean (h : Merges source target x y) (hne : source ≠ target) :
    Clean source y.world := by
  obtain ⟨i, o, p, opts, k, report, l, -, -, -, hm, hworld⟩ := h
  have hmerged := Linking.merge_merged hm
  rw [hworld]
  refine clean_putLinking (hmerged.absent hne.symm fun hsource => absurd rfl hsource) ?_
  obtain ⟨v, hv, -, -, hid, -⟩ := hmerged.users
  obtain ⟨v', hv', hid', -⟩ := Linking.merged_user_of hmerged hv
  exact ⟨v', hv', hid'.trans hid⟩

theorem Merges.reaches (h : Merges source target x y) : Reaches Guard.free x y := by
  obtain ⟨i, o, -, -, -, -, -, hl, -⟩ := h
  exact .single ⟨_, hl⟩

end Meduman.Joint

namespace Meduman.Linking

open Effect
open Joint (Merges Idle spares)

/-- **Ownership moves.** A merge that commits moves every row that refers to the absorbed user and leaves
everything else as it was. With all the services at work, where no call in progress acts for the absorbed
user, no row of any table names them in any run from there in which no call arrives that does and nobody
is merged into them. -/
theorem ownership_moves {source target : Uuid} (hne : source ≠ target) :
    (∀ opts w report w', merge source target opts w = .ok (report, w') →
      Merged source target w w' ∧ Absent source w') ∧
    ∀ (env : Joint.Env) (x y : Config (Joint.service env)), Joint.Reachable env x →
      Merges source target x y →
      Merged source target (Dialog.World.linking x.world) (Dialog.World.linking y.world) ∧
      Absent source (Dialog.World.linking y.world) ∧
      (Idle source y → ∀ z, Follows (spares env source) y z →
        Absent source (Dialog.World.linking z.world)) := by
  refine ⟨fun opts w report w' h => ?_, fun env x y hx hm => ?_⟩
  · have hmerged := merge_merged h
    exact ⟨hmerged, hmerged.absent hne.symm fun hsource => absurd rfl hsource⟩
  · have hclean := hm.clean hne
    refine ⟨hm.merged, hclean.absent, fun hidle z hz => ?_⟩
    exact (Joint.unclaimed_run (hx.trans hm.reaches) ⟨hclean, hidle⟩ hz).rows.absent

end Meduman.Linking

namespace Meduman.Joint

open Effect

namespace Demo

/-- The settings of all the services. -/
def settings : Joint.Env where
  core := Meduman.Demo.silent
  dialog :=
    { gateway := ⟨[.telegramAdapter], fun _ _ _ => true⟩
      linking := ⟨fun code => code, fun code => code, 8, 900, 5, "chat.example"⟩
      otp := ⟨fun code => code, 6, 300, 5⟩
      chatSessionTtlSeconds := 900 }

/-- A step of the core, whose processes come after `n` others. -/
def lift (n : Nat) : Label (Meduman.core Meduman.Demo.silent) → Label (Joint.service settings)
  | .arrive c => .arrive (.core c)
  | .perform i o => .perform (n + i) (.web (.dialog (.core o)))
  | .crash i => .crash (n + i)
  | .drift m => .drift (.core m)

/-- Process `i` goes on in the linking service. -/
def links (i n : Nat) (id : Uuid) : List (Label (Joint.service settings)) :=
  List.replicate n (.perform i (.web (.dialog (.linking (.served ⟨id, "CODE"⟩)))))

/-- A message of the seller's chat. -/
def account (connect : Option String) : Label (Joint.service settings) :=
  .arrive (.web (.link (.message .telegram "5" none connect)))

/-- The seller comes by chat, and a web account mints a code. -/
def opened : List (Label (Joint.service settings)) :=
  account none :: links 0 4 Meduman.Demo.seller ++ .drift (.signUp Linking.Demo.laterWeb "later") ::
  .arrive (.web (.link (.mint Linking.Demo.laterWeb))) :: links 1 6 Linking.Demo.laterWeb

/-- The seller's sale is in checkout. -/
def sold : List (Label (Joint.service settings)) :=
  opened ++ ((Meduman.Demo.checkout Meduman.Demo.silent).tail ++ Meduman.Demo.serves _ 0 1).map (lift 2)

/-- The sale is protected, delivered and confirmed, and a worker that releases it has read it. -/
def releasing : List (Label (Meduman.core Meduman.Demo.silent)) :=
  Meduman.Demo.protectedSale _ ++ Meduman.Demo.drives _ 4 .sellerStartDelivery ++
  Meduman.Demo.drives _ 5 .sellerMarkDelivered ++
  .arrive (.confirm Meduman.Demo.sale Meduman.Demo.buyer none) :: Meduman.Demo.serves _ 6 4 ++
  .arrive (.executeRelease Meduman.Demo.sale) :: Meduman.Demo.serves _ 7 2

def reading : List (Label (Joint.service settings)) := opened ++ releasing.tail.map (lift 2)

/-- The seller types the code; all that is left is to merge. -/
def connecting (i : Nat) : List (Label (Joint.service settings)) :=
  account (some "CODE") :: links i 8 Linking.Demo.laterWeb

/-- The process is about to merge the seller into the web account, and the guards pass. -/
def isMerging (i : Nat) (x : Config (Joint.service settings)) : Bool :=
  match x.pending i with
  | some (_, ⟨.web (.dialog (.linking op)), _⟩) =>
      decide (op = .mergeAccounts Meduman.Demo.seller Linking.Demo.laterWeb {}) &&
        (Linking.merge Meduman.Demo.seller Linking.Demo.laterWeb {}
          (Dialog.World.linking x.world)).toOption.isSome
  | _ => false

/-- What is there after the merge. -/
def merged (i : Nat) (x : Config (Joint.service settings)) : Option (Config (Joint.service settings)) :=
  x.next Guard.free (.perform i (.web (.dialog (.linking (.served ⟨Linking.Demo.laterWeb, ""⟩)))))

theorem merges_of_isMerging {i : Nat} {x : Config (Joint.service settings)}
    (h : isMerging i x = true) :
    ∃ y, merged i x = some y ∧ Merges Meduman.Demo.seller Linking.Demo.laterWeb x y := by
  unfold isMerging at h
  split at h
  · rename_i p op k hpending
    obtain ⟨hop, hcommits⟩ := Bool.and_eq_true_iff.mp h
    cases of_decide_eq_true hop
    obtain ⟨hp, hk⟩ := Config.pending_spec hpending
    cases hresult : Linking.merge Meduman.Demo.seller Linking.Demo.laterWeb {}
        (Dialog.World.linking x.world) with
    | error e =>
        rw [hresult] at hcommits
        cases hcommits
    | ok r => exact Joint.merges_served ⟨Linking.Demo.laterWeb, ""⟩ hp hk hresult
  · cases h

/-- A payout is the seller's. -/
def paysSeller (x : Config (Joint.service settings)) : Bool :=
  (Dialog.World.linking x.world).payouts.rows.any fun p => p.sellerId == Meduman.Demo.seller

/-- A sale is the seller's. -/
def sellsSeller (x : Config (Joint.service settings)) : Bool :=
  (Dialog.World.linking x.world).transactions.rows.any fun t => t.sellerId == Meduman.Demo.seller

/-- The worker goes on. -/
def resumed (x : Config (Joint.service settings)) : Option (Config (Joint.service settings)) :=
  x.next Guard.free (.perform 9 (.web (.dialog (.core (.served { id := Meduman.Demo.release })))))

/-- No call in progress acts for the seller. -/
def isIdle (x : Config (Joint.service settings)) : Bool :=
  x.procs.all fun p => !p.running || !Joint.Call.actsFor p.call p.hist Meduman.Demo.seller

/-- The request is completed. -/
def isRecorded (x : Config (Joint.service settings)) : Bool :=
  (Dialog.World.linking x.world).linkRequests.rows.any fun r => r.status == .completed

/-- Nobody acts for the seller, and the merge is yet to be recorded, which spares them. -/
def isFollowed (y : Config (Joint.service settings)) : Bool :=
  !isRecorded y && isIdle y &&
    (y.follow (spares settings Meduman.Demo.seller) (links 5 2 Linking.Demo.laterWeb)).any isRecorded

theorem idle_of_isIdle {x : Config (Joint.service settings)} (h : isIdle x = true) :
    Idle Meduman.Demo.seller x := by
  rintro p hp ⟨op, k, hk⟩
  simpa [Process.running, hk] using List.all_eq_true.mp h p hp

theorem followed_of_isFollowed {y : Config (Joint.service settings)} (h : isFollowed y = true) :
    isRecorded y = false ∧ Idle Meduman.Demo.seller y ∧
      ∃ z, Follows (spares settings Meduman.Demo.seller) y z ∧ isRecorded z = true := by
  simp only [isFollowed, Bool.and_eq_true, Bool.not_eq_true'] at h
  obtain ⟨⟨hfresh, hidle⟩, hany⟩ := h
  obtain ⟨z, hz, hrecorded⟩ := (Option.any_eq_true _ _).mp hany
  exact ⟨hfresh, idle_of_isIdle hidle, z, follows_of_follow hz, hrecorded⟩

end Demo

end Meduman.Joint

namespace Meduman.Linking

open Effect
open Joint (Merges Idle spares)

set_option maxRecDepth 20000 in
/-- **A release that read the transaction before the merge** pays out to the absorbed user. -/
theorem released_to_absorbed : ¬ ∀ (env : Joint.Env) (x y z : Config (Joint.service env))
    (source target : Uuid), source ≠ target → Joint.Reachable env x → Merges source target x y →
    Reaches Guard.free y z → Absent source (Dialog.World.linking z.world) := by
  intro hall
  have hrun : ((Config.run Guard.free (Joint.Demo.reading ++ Joint.Demo.connecting 10)
      ⟨Dialog.World.initial, []⟩).map fun x => Joint.Demo.isMerging 10 x &&
        ((Joint.Demo.merged 10 x).bind Joint.Demo.resumed).any Joint.Demo.paysSeller) = some true := by decide
  obtain ⟨x, hx, htest⟩ := exists_of_run hrun
  obtain ⟨hmerging, hresumed⟩ := Bool.and_eq_true_iff.mp htest
  obtain ⟨y, hy, hmerges⟩ := Joint.Demo.merges_of_isMerging hmerging
  rw [hy] at hresumed
  obtain ⟨z, hz, hpays⟩ := (Option.any_eq_true _ _).mp hresumed
  replace hz : Joint.Demo.resumed y = some z := hz
  have habsent := hall _ x y z Meduman.Demo.seller Demo.laterWeb (by decide) hx hmerges (.single ⟨_, hz⟩)
  obtain ⟨p, hp, hseller⟩ := List.any_eq_true.mp hpays
  exact habsent.payouts p hp (beq_iff_eq.mp hseller)

set_option maxRecDepth 20000 in
/-- A seller with a sale in checkout is absorbed, and the merge is recorded. -/
theorem ownership_moves_sale : ∃ x y z : Config (Joint.service Joint.Demo.settings),
    Joint.Demo.sellsSeller x = true ∧ Merges Meduman.Demo.seller Demo.laterWeb x y ∧
    Joint.Demo.isRecorded y = false ∧ Joint.Demo.isRecorded z = true ∧
    Absent Meduman.Demo.seller (Dialog.World.linking z.world) := by
  have hrun : ((Config.run Guard.free (Joint.Demo.sold ++ Joint.Demo.connecting 5)
      ⟨Dialog.World.initial, []⟩).map fun x => Joint.Demo.isMerging 5 x &&
        Joint.Demo.sellsSeller x && (Joint.Demo.merged 5 x).any Joint.Demo.isFollowed) = some true := by
    decide
  obtain ⟨x, hx, htest⟩ := exists_of_run hrun
  simp only [Bool.and_eq_true] at htest
  obtain ⟨⟨hmerging, hsells⟩, hfollowed⟩ := htest
  obtain ⟨y, hy, hmerges⟩ := Joint.Demo.merges_of_isMerging hmerging
  rw [hy] at hfollowed
  obtain ⟨hfresh, hidle, z, hz, hrecorded⟩ := Joint.Demo.followed_of_isFollowed hfollowed
  obtain ⟨-, -, hlater⟩ := (@ownership_moves Meduman.Demo.seller Demo.laterWeb (by decide)).2
    Joint.Demo.settings x y hx hmerges
  exact ⟨x, y, z, hsells, hmerges, hfresh, hrecorded, hlater hidle z hz⟩

end Meduman.Linking
