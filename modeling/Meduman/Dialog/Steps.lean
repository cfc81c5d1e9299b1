import Meduman.Dispute.Agree
import Meduman.Linking.Forest
import Meduman.Model.Dialog

/-!
# What the operations of the dialog change

Every table of the dialog's world belongs to one service, and most rows stay what they are.

* `exec_core`, `exec_linking`, `exec_sellers`, `exec_chat` : an operation, by whose it is
* `linking_change` : what the linking service leaves, and what it leaves of a merge
* `dispute_origin`, `evidence_origin`, `session_origin`, `timeline_origin` : where a row comes from
* `filed_kept`, `identity_kept` : what stays of a dispute and of an identity
* `Answers`, **`answers_exec`** : what an answer says
-/

set_option autoImplicit false

namespace Meduman.Dialog

open Effect
open Linking (ChatIdentity Merged)

variable {u w : World} {op : Op} {o : Choice} {a : Except Err op.Ans}

/-! ## Whose operation it is -/

theorem exec_chat {op : ChatOp} {a : Except Err op.Ans} (h : exec (.chat op) o u = some (a, w)) :
    ∃ f, o = .chat f ∧ backend.exec op f u = some (a, w) := by
  cases o with
  | chat f => exact ⟨f, rfl, h⟩
  | core _ => cases h
  | linking _ => cases h
  | otp _ => cases h
  | gateway _ => cases h
  | sellers _ => cases h

theorem exec_core {op : Meduman.Op} {a : Except Err op.Ans}
    (h : exec (.core op) o u = some (a, w)) : ∃ f a₀, o = .core f ∧
      Meduman.exec op f u.core = some (a₀, w.core) ∧ a = a₀.mapError .core ∧
      w = { u with core := w.core } := by
  cases o with
  | core f =>
      obtain ⟨⟨a₀, c⟩, hexec, heq⟩ := Option.map_eq_some_iff.mp h
      cases heq
      exact ⟨f, a₀, rfl, hexec, rfl, rfl⟩
  | chat _ => cases h
  | linking _ => cases h
  | otp _ => cases h
  | gateway _ => cases h
  | sellers _ => cases h

theorem exec_linking {op : Linking.Op} {a : Except Err op.Ans}
    (h : exec (.linking op) o u = some (a, w)) : ∃ f a₀ l, o = .linking f ∧
      Linking.backend.exec op f u.linking = some (a₀, l) ∧ a = a₀.mapError .linking ∧
      (w = u ∧ carriesOut Linking.Op.writes op f = false ∨ w = u.putLinking l) := by
  cases o with
  | linking f =>
      obtain ⟨⟨a₀, l⟩, hexec, heq⟩ := Option.map_eq_some_iff.mp h
      obtain ⟨ha, hw⟩ := Prod.ext_iff.mp heq
      refine ⟨f, a₀, l, rfl, hexec, ha.symm, ?_⟩
      simp only at hw
      split at hw
      · exact .inr hw.symm
      · rename_i hno
        exact .inl ⟨hw.symm, by simpa using hno⟩
  | chat _ => cases h
  | core _ => cases h
  | otp _ => cases h
  | gateway _ => cases h
  | sellers _ => cases h

theorem exec_otp {op : Otp.Op} {a : Except Err op.Ans} (h : exec (.otp op) o u = some (a, w)) :
    w = { u with otp := w.otp } := by
  cases o with
  | otp f =>
      obtain ⟨⟨a₀, l⟩, hexec, heq⟩ := Option.map_eq_some_iff.mp h
      obtain ⟨-, hw⟩ := Prod.ext_iff.mp heq
      simp only at hw
      split at hw <;> rw [← hw]
  | chat _ => cases h
  | core _ => cases h
  | linking _ => cases h
  | gateway _ => cases h
  | sellers _ => cases h

theorem exec_gateway {op : Chat.Op} {a : Except Err op.Ans}
    (h : exec (.gateway op) o u = some (a, w)) : ∃ f a₀,
      Chat.backend.exec op f u.gateway = some (a₀, w.gateway) ∧ a = a₀.mapError .gateway ∧
      w = { u with gateway := w.gateway } := by
  cases o with
  | gateway f =>
      obtain ⟨⟨a₀, g⟩, hexec, heq⟩ := Option.map_eq_some_iff.mp h
      cases heq
      exact ⟨f, a₀, hexec, rfl, rfl⟩
  | chat _ => cases h
  | core _ => cases h
  | linking _ => cases h
  | otp _ => cases h
  | sellers _ => cases h

theorem exec_sellers {op : Sellers.Op} {a : Except Err op.Ans}
    (h : exec (.sellers op) o u = some (a, w)) : ∃ f a₀ s,
      Sellers.backend.exec op f u.sellers = some (a₀, s) ∧ a = a₀.mapError .sellers ∧
      w = u.putSellers s := by
  cases o with
  | sellers f =>
      obtain ⟨⟨a₀, s⟩, hexec, heq⟩ := Option.map_eq_some_iff.mp h
      cases heq
      exact ⟨f, a₀, s, hexec, rfl, rfl⟩
  | chat _ => cases h
  | core _ => cases h
  | linking _ => cases h
  | otp _ => cases h
  | gateway _ => cases h

/-! ## Tables -/

/-- What an operation of the dialog itself leaves alone. -/
theorem chat_same {op : ChatOp} {a : Except Err op.Ans} (h : exec (.chat op) o u = some (a, w)) :
    w.core.disputes = u.core.disputes ∧ w.core.timeline = u.core.timeline ∧
      w.accounts.chatIdentities = u.accounts.chatIdentities ∧ w.accounts.users = u.accounts.users := by
  obtain ⟨f, -, hexec⟩ := exec_chat h
  refine Backend.exec_keeps (P := fun w => w.core.disputes = u.core.disputes ∧
    w.core.timeline = u.core.timeline ∧ w.accounts.chatIdentities = u.accounts.chatIdentities ∧
    w.accounts.users = u.accounts.users) hexec ⟨rfl, rfl, rfl, rfl⟩ fun s _ => ?_
  cases op with
  | chatSessionUpsert id t =>
      simp only [backend, effect, upsertSession]
      split <;> exact ⟨rfl, rfl, rfl, rfl⟩
  | chatSessionUpdate id d t =>
      simp only [backend, effect, updateSessionRow]
      split
      · exact ⟨rfl, rfl, rfl, rfl⟩
      · split <;> exact ⟨rfl, rfl, rfl, rfl⟩
  | evidenceCreate d =>
      simp only [backend, effect]
      split <;> exact ⟨rfl, rfl, rfl, rfl⟩
  | _ => exact ⟨rfl, rfl, rfl, rfl⟩

/-- **What an operation of the linking service leaves.** A merge moves rows; no other one does. -/
theorem linking_change {op : Linking.Op} {a : Except Err op.Ans}
    (h : exec (.linking op) o u = some (a, w)) :
    (w.core.disputes = u.core.disputes ∧ w.accounts.evidence = u.accounts.evidence ∧
      (w.accounts.chatIdentities = u.accounts.chatIdentities ∨
        ∃ d id, op = .identityCreate d ∧ w.accounts.chatIdentities.rows =
          u.accounts.chatIdentities.rows ++ [Linking.chatIdentity d id])) ∨
    ∃ source target opts l, op = .mergeAccounts source target opts ∧
      Merged source target u.linking l ∧ w = u.putLinking l := by
  obtain ⟨f, a₀, l, -, hexec, -, ⟨rfl, -⟩ | rfl⟩ := exec_linking h
  · exact .inl ⟨rfl, rfl, .inl rfl⟩
  · rcases Linking.disputes_change hexec with ⟨hdisputes, hevidence⟩ |
      ⟨source, target, opts, rfl, hmerged⟩
    · rcases Linking.accounts_change hexec with ⟨-, hsame⟩ | ⟨d, id, rfl, -, hrows⟩ |
        ⟨source, target, opts, rfl, hmerged⟩
      · exact .inl ⟨hdisputes, hevidence, .inl hsame⟩
      · exact .inl ⟨hdisputes, hevidence, .inr ⟨d, id, rfl, hrows⟩⟩
      · exact .inr ⟨source, target, opts, l, rfl, hmerged, rfl⟩
    · exact .inr ⟨source, target, opts, l, rfl, hmerged, rfl⟩

/-- The operation merges the one user into the other, and this is what it leaves. -/
def Merges (op : Op) (u w : World) (source target : Uuid) : Prop :=
  ∃ opts l, op = .linking (.mergeAccounts source target opts) ∧ Merged source target u.linking l ∧
    w = u.putLinking l

/-! ## Where a row comes from -/

/-- The same dispute, of the same user. -/
def SameDispute (d d₀ : Dispute) : Prop :=
  d.id = d₀.id ∧ d.transactionId = d₀.transactionId ∧ d.openedBy = d₀.openedBy

theorem core_disputes {op : Meduman.Op} {f : Outcome} {a₀ : Except Meduman.Err op.Ans}
    {u w : Meduman.World} (h : Meduman.exec op f u = some (a₀, w)) {d : Dispute}
    (hd : d ∈ w.disputes) : (∃ d₀ ∈ u.disputes, SameDispute d d₀) ∨
      ∃ c id, op = .disputeCreate c ∧ d = c.row id := by
  by_cases hcreate : ∃ c, op = .disputeCreate c
  · obtain ⟨c, rfl⟩ := hcreate
    rcases exec_cases h with ⟨rfl, -⟩ | ⟨s, -, rfl, -⟩
    · exact .inl ⟨d, hd, rfl, rfl, rfl⟩
    · simp only [Meduman.effect] at hd
      split at hd
      · exact .inl ⟨d, hd, rfl, rfl, rfl⟩
      · rename_i hwrite
        rcases (Table.mem_create hwrite).mp hd with hd | rfl
        · exact .inl ⟨d, hd, rfl, rfl, rfl⟩
        · exact .inr ⟨c, s.id, rfl, rfl⟩
  · by_cases hupdate : ∃ id c, op = .disputeUpdate id c
    · obtain ⟨id, c, rfl⟩ := hupdate
      rcases exec_cases h with ⟨rfl, -⟩ | ⟨s, -, rfl, -⟩
      · exact .inl ⟨d, hd, rfl, rfl, rfl⟩
      · simp only [Meduman.effect, disputeUpdate] at hd
        split at hd
        · exact .inl ⟨d, hd, rfl, rfl, rfl⟩
        · split at hd
          · exact .inl ⟨d, hd, rfl, rfl, rfl⟩
          · rename_i hwrite
            obtain ⟨d₀, hd₀, rfl⟩ := (Table.mem_update hwrite).mp hd
            refine .inl ⟨d₀, hd₀, ?_⟩
            split <;> exact ⟨rfl, rfl, rfl⟩
    · refine .inl ⟨d, ?_, rfl, rfl, rfl⟩
      rwa [← exec_disputes (fun a => ?_) h]
      cases op with
      | disputeCreate c => exact absurd ⟨c, rfl⟩ hcreate
      | disputeUpdate id c => exact absurd ⟨id, c, rfl⟩ hupdate
      | _ => rfl

/-- **Where a dispute comes from.** -/
theorem dispute_origin (h : exec op o u = some (a, w)) {d : Dispute} (hd : d ∈ w.core.disputes) :
    (∃ d₀ ∈ u.core.disputes, SameDispute d d₀) ∨
    (∃ c id, op = .core (.disputeCreate c) ∧ d = c.row id) ∨
    ∃ source target, Merges op u w source target ∧
      ∃ d₀ ∈ u.core.disputes, d = Linking.reparentDispute source target d₀ := by
  cases op with
  | core op =>
      obtain ⟨f, a₀, -, hexec, -, -⟩ := exec_core h
      rcases core_disputes hexec hd with hsame | ⟨c, id, rfl, hrow⟩
      · exact .inl hsame
      · exact .inr (.inl ⟨c, id, rfl, hrow⟩)
  | linking op =>
      rcases linking_change h with ⟨hsame, -⟩ | ⟨source, target, opts, l, rfl, hmerged, rfl⟩
      · exact .inl ⟨d, hsame ▸ hd, rfl, rfl, rfl⟩
      · obtain ⟨d₀, hd₀, rfl⟩ := List.mem_map.mp (hmerged.disputes ▸ Table.mem_def.mp hd)
        exact .inr (.inr ⟨source, target, ⟨opts, l, rfl, hmerged, rfl⟩, d₀, hd₀, rfl⟩)
  | otp op => exact .inl ⟨d, by rw [exec_otp h] at hd; exact hd, rfl, rfl, rfl⟩
  | gateway op =>
      obtain ⟨f, a₀, -, -, hw⟩ := exec_gateway h
      exact .inl ⟨d, by rw [hw] at hd; exact hd, rfl, rfl, rfl⟩
  | sellers op =>
      obtain ⟨f, a₀, s, -, -, rfl⟩ := exec_sellers h
      exact .inl ⟨d, hd, rfl, rfl, rfl⟩
  | chat op => exact .inl ⟨d, (chat_same h).1 ▸ hd, rfl, rfl, rfl⟩

/-- **Where evidence comes from.** -/
theorem evidence_origin (h : exec op o u = some (a, w)) {e : Linking.Evidence}
    (he : e ∈ w.accounts.evidence) : e ∈ u.accounts.evidence ∨
    (∃ c id, op = .chat (.evidenceCreate c) ∧ e = c.row id) ∨
    ∃ source target, Merges op u w source target ∧
      ∃ e₀ ∈ u.accounts.evidence, e = e₀.reparent source target := by
  cases op with
  | core op =>
      obtain ⟨f, a₀, -, -, -, hw⟩ := exec_core h
      exact .inl (by rw [hw] at he; exact he)
  | linking op =>
      rcases linking_change h with ⟨-, hsame, -⟩ | ⟨source, target, opts, l, rfl, hmerged, rfl⟩
      · exact .inl (hsame ▸ he)
      · obtain ⟨e₀, he₀, rfl⟩ := List.mem_map.mp (hmerged.evidence ▸ Table.mem_def.mp he)
        exact .inr (.inr ⟨source, target, ⟨opts, l, rfl, hmerged, rfl⟩, e₀, he₀, rfl⟩)
  | otp op => exact .inl (by rw [exec_otp h] at he; exact he)
  | gateway op =>
      obtain ⟨f, a₀, -, -, hw⟩ := exec_gateway h
      exact .inl (by rw [hw] at he; exact he)
  | sellers op =>
      obtain ⟨f, a₀, s, -, -, rfl⟩ := exec_sellers h
      exact .inl he
  | chat op =>
      obtain ⟨f, -, hexec⟩ := exec_chat h
      rcases Backend.exec_cases hexec with ⟨rfl, -⟩ | ⟨s, -, -, rfl, -⟩
      · exact .inl he
      · cases op with
        | evidenceCreate c =>
            simp only [backend, effect] at he
            split at he
            · exact .inl he
            · rename_i hwrite
              rcases (Table.mem_create hwrite).mp he with he | rfl
              · exact .inl he
              · exact .inr (.inl ⟨c, s.id, rfl, rfl⟩)
        | chatSessionUpsert id t =>
            simp only [backend, effect, upsertSession] at he
            split at he <;> exact .inl he
        | chatSessionUpdate id d t =>
            simp only [backend, effect, updateSessionRow] at he
            split at he
            · exact .inl he
            · split at he <;> exact .inl he
        | _ => exact .inl he

/-- **Where a session comes from:** it was there, or is new, or was updated. -/
theorem session_origin (h : exec op o u = some (a, w)) {s : ChatSession} (hs : s ∈ w.sessions) :
    s ∈ u.sessions ∨ (∃ id t, s = freshSession id t) ∨
    ∃ s₀ ∈ u.sessions, ∃ patch t, op = .chat (.chatSessionUpdate s₀.chatIdentityId patch t) ∧
      s = SessionPatch.apply patch t s₀ := by
  cases op with
  | core op =>
      obtain ⟨f, a₀, -, -, -, hw⟩ := exec_core h
      exact .inl (by rw [hw] at hs; exact hs)
  | linking op =>
      obtain ⟨f, a₀, l, -, -, -, ⟨rfl, -⟩ | rfl⟩ := exec_linking h <;> exact .inl hs
  | otp op => exact .inl (by rw [exec_otp h] at hs; exact hs)
  | gateway op =>
      obtain ⟨f, a₀, -, -, hw⟩ := exec_gateway h
      exact .inl (by rw [hw] at hs; exact hs)
  | sellers op =>
      obtain ⟨f, a₀, s, -, -, rfl⟩ := exec_sellers h
      exact .inl hs
  | chat op =>
      obtain ⟨f, -, hexec⟩ := exec_chat h
      rcases Backend.exec_cases hexec with ⟨rfl, -⟩ | ⟨supply, -, -, rfl, -⟩
      · exact .inl hs
      · cases op with
        | chatSessionUpsert id t =>
            simp only [backend, effect, upsertSession] at hs
            split at hs
            · exact .inl hs
            · rename_i hwritten
              split at hwritten
              · rcases (Table.mem_create hwritten).mp hs with hs | rfl
                · exact .inl hs
                · exact .inr (.inl ⟨id, t, rfl⟩)
              · obtain ⟨s₀, hs₀, rfl⟩ := (Table.mem_update hwritten).mp hs
                split
                · exact .inr (.inl ⟨s₀.chatIdentityId, t, rfl⟩)
                · exact .inl hs₀
        | chatSessionUpdate id d t =>
            simp only [backend, effect, updateSessionRow] at hs
            split at hs
            · exact .inl hs
            · split at hs
              · exact .inl hs
              · rename_i hwritten
                obtain ⟨s₀, hs₀, rfl⟩ := (Table.mem_update hwritten).mp hs
                split
                · rename_i hid
                  obtain rfl := beq_iff_eq.mp hid
                  exact .inr (.inr ⟨s₀, hs₀, d, t, rfl, rfl⟩)
                · exact .inl hs₀
        | evidenceCreate c =>
            simp only [backend, effect] at hs
            split at hs <;> exact .inl hs
        | _ => exact .inl hs

/-- **Where a line of the timeline comes from:** only a commit of the core adds one. -/
theorem timeline_origin (h : exec op o u = some (a, w)) {e : TimelineEvent}
    (he : e ∈ w.core.timeline) : e ∈ u.core.timeline ∨
      ∃ d, op = .core (.commitTransition d) ∧ e = d.timeline := by
  cases op with
  | core op =>
      obtain ⟨f, a₀, -, hexec, -, -⟩ := exec_core h
      have hchange := exec_change hexec
      generalize w.core = c, u.core = c₀ at hchange he ⊢
      cases hchange with
      | frame same => exact .inl (same.timeline ▸ he)
      | commit found write payments payouts webhookEvents timeline paystack =>
          rw [timeline] at he
          rcases List.mem_append.mp he with he | he
          · exact .inl he
          · exact .inr ⟨_, rfl, List.mem_singleton.mp he⟩
      | _ => exact .inl he
  | linking op =>
      obtain ⟨f, a₀, l, -, -, -, ⟨rfl, -⟩ | rfl⟩ := exec_linking h <;> exact .inl he
  | otp op => exact .inl (by rw [exec_otp h] at he; exact he)
  | gateway op =>
      obtain ⟨f, a₀, -, -, hw⟩ := exec_gateway h
      exact .inl (by rw [hw] at he; exact he)
  | sellers op =>
      obtain ⟨f, a₀, s, -, -, rfl⟩ := exec_sellers h
      exact .inl he
  | chat op => exact .inl ((chat_same h).2.1 ▸ he)

/-! ## What stays -/

theorem filed_iff {w : Meduman.World} {id transactionId : Uuid} : Filed w id transactionId ↔
    ∃ d ∈ w.disputes, d.id = id ∧ d.transactionId = transactionId := by
  constructor
  · rintro ⟨isOpen, hfiled⟩
    obtain ⟨d, hd, hid, ht, -⟩ := filed_eq_some.mp hfiled
    exact ⟨d, hd, hid, ht⟩
  · rintro ⟨d, hd, hid, ht⟩
    exact ⟨_, filed_eq_some.mpr ⟨d, hd, hid, ht, rfl⟩⟩

/-- **A dispute stays on file.** -/
theorem filed_kept (h : exec op o u = some (a, w)) {id transactionId : Uuid}
    (hfiled : Filed u.core id transactionId) : Filed w.core id transactionId := by
  cases op with
  | core op =>
      obtain ⟨f, a₀, -, hexec, -, -⟩ := exec_core h
      exact filed_exec hexec hfiled
  | linking op =>
      obtain ⟨d, hd, hid, ht⟩ := filed_iff.mp hfiled
      rcases linking_change h with ⟨hsame, -⟩ | ⟨source, target, opts, l, rfl, hmerged, rfl⟩
      · exact filed_iff.mpr ⟨d, hsame ▸ hd, hid, ht⟩
      · exact filed_iff.mpr ⟨Linking.reparentDispute source target d,
          Table.mem_def.mpr (hmerged.disputes ▸ List.mem_map_of_mem hd), hid, ht⟩
  | otp op => rw [exec_otp h]; exact hfiled
  | gateway op =>
      obtain ⟨f, a₀, -, -, hw⟩ := exec_gateway h
      rw [hw]
      exact hfiled
  | sellers op =>
      obtain ⟨f, a₀, s, -, -, rfl⟩ := exec_sellers h
      exact hfiled
  | chat op =>
      obtain ⟨d, hd, hid, ht⟩ := filed_iff.mp hfiled
      exact filed_iff.mpr ⟨d, (chat_same h).1 ▸ hd, hid, ht⟩

/-- **An identity stays,** its owner's unless they are merged. -/
theorem identity_kept (h : exec op o u = some (a, w)) {i : ChatIdentity}
    (hi : i ∈ u.accounts.chatIdentities) : ∃ j ∈ w.accounts.chatIdentities, j.id = i.id ∧
      (j.userId = i.userId ∨ ∃ source target, Merges op u w source target ∧
        i.userId = source ∧ j.userId = target) := by
  cases op with
  | core op =>
      obtain ⟨f, a₀, -, -, -, hw⟩ := exec_core h
      exact ⟨i, by rw [hw]; exact hi, rfl, .inl rfl⟩
  | linking op =>
      rcases linking_change h with ⟨-, -, hsame | ⟨d, id, -, hrows⟩⟩ |
        ⟨source, target, opts, l, rfl, hmerged, rfl⟩
      · exact ⟨i, hsame ▸ hi, rfl, .inl rfl⟩
      · exact ⟨i, Table.mem_def.mpr (hrows ▸ List.mem_append_left _ hi), rfl, .inl rfl⟩
      · refine ⟨i.reparent source target,
          Table.mem_def.mpr (hmerged.chatIdentities ▸ List.mem_map_of_mem hi), rfl, ?_⟩
        by_cases hsource : i.userId = source
        · exact .inr ⟨source, target, ⟨opts, l, rfl, hmerged, rfl⟩, hsource,
            by simp [ChatIdentity.reparent, Uuid.merged, hsource]⟩
        · exact .inl (by simp [ChatIdentity.reparent, Uuid.merged, hsource])
  | otp op => exact ⟨i, by rw [exec_otp h]; exact hi, rfl, .inl rfl⟩
  | gateway op =>
      obtain ⟨f, a₀, -, -, hw⟩ := exec_gateway h
      exact ⟨i, by rw [hw]; exact hi, rfl, .inl rfl⟩
  | sellers op =>
      obtain ⟨f, a₀, s, -, -, rfl⟩ := exec_sellers h
      exact ⟨i, hi, rfl, .inl rfl⟩
  | chat op => exact ⟨i, (chat_same h).2.2.1 ▸ hi, rfl, .inl rfl⟩

/-- A merge leaves a tombstone. -/
theorem Merges.tombstone {source target : Uuid} (h : Merges op u w source target) :
    ∃ r ∈ w.accounts.users, r.id = source ∧ r.mergedIntoUserId = some target := by
  obtain ⟨opts, l, -, hmerged, rfl⟩ := h
  obtain ⟨r, hr, -, -, hid, -⟩ := hmerged.users
  obtain ⟨r', hr', hid', -⟩ := Linking.merged_user_of hmerged hr
  refine ⟨r', hr', hid'.trans hid, ?_⟩
  obtain ⟨r₀, hr₀, hid₀, ⟨-, hinto, -⟩ | ⟨hne, -⟩⟩ := Linking.merged_user hmerged hr'
  · exact hinto
  · exact absurd (hid₀.symm.trans (hid'.trans hid)) hne

/-! ## What is read -/

def transactionRead : Event Op.Ans Err → Option Transaction
  | ⟨.core (.transactionFindUnique _), .ok found⟩ => found
  | ⟨.chat (.transactionFindFirst ..), .ok found⟩ => found
  | _ => none

/-- The dispute that is found, or made. -/
def disputeRead : Event Op.Ans Err → Option Dispute
  | ⟨.core (.disputeFindUnique _), .ok found⟩ => found
  | ⟨.core (.disputeCreate _), .ok d⟩ => some d
  | ⟨.chat (.disputeFindFirst ..), .ok found⟩ => found
  | _ => none

/-- The identity that is found, or made. -/
def identityRead : Event Op.Ans Err → Option ChatIdentity
  | ⟨.linking (.chatIdentityFindByAccount ..), .ok found⟩ => found
  | ⟨.linking (.identityCreate _), .ok i⟩ => some i
  | _ => none

def sessionRead : Event Op.Ans Err → Option ChatSession
  | ⟨.chat (.chatSessionFindUnique _), .ok found⟩ => found
  | ⟨.chat (.chatSessionUpsert ..), .ok s⟩ => some s
  | _ => none

/-- An answer of the core, as the core gave it. -/
theorem core_ok {op : Meduman.Op} {a : op.Ans} (h : exec (.core op) o u = some (.ok a, w)) :
    ∃ f, Meduman.exec op f u.core = some (.ok a, w.core) := by
  obtain ⟨f, a₀, -, hexec, ha, -⟩ := exec_core h
  cases a₀ with
  | error e => cases ha
  | ok b => cases Except.ok.inj ha; exact ⟨f, hexec⟩

/-- An answer to the dialog itself. -/
theorem chat_ok {op : ChatOp} {a : op.Ans} (h : exec (.chat op) o u = some (.ok a, w)) :
    ∃ s, effect s u op = (.ok a, w) := by
  obtain ⟨f, -, hexec⟩ := exec_chat h
  obtain ⟨s, -, heff⟩ := Backend.exec_ok hexec
  exact ⟨s, heff⟩

/-- One of several rows that are selected. -/
theorem transactionFindFirst_spec {buyerId : Uuid} {status : TransactionStatus} {s : Supply}
    {t : Transaction} (h : effect s u (.transactionFindFirst buyerId status) = (.ok (some t), w)) :
    t ∈ u.core.transactions ∧ t.buyerId = some buyerId := by
  have hfound := Except.ok.inj (Prod.ext_iff.mp h).1
  obtain h | ⟨-, h⟩ := Option.or_eq_some_iff.mp hfound
  all_goals
    obtain ⟨ht, hsel⟩ := Table.mem_filter.mp (List.mem_of_getElem? h)
    exact ⟨ht, beq_iff_eq.mp (Bool.and_eq_true_iff.mp hsel).1⟩

/-- A transaction that is read is stored. -/
theorem transactionRead_mem {e : Event Op.Ans Err} (h : exec e.op o u = some (e.ans, w))
    {t : Transaction} (ht : transactionRead e = some t) : t ∈ u.core.transactions := by
  obtain ⟨op, a⟩ := e
  unfold transactionRead at ht
  split at ht
  · rename_i key found heq
    cases heq
    cases ht
    obtain ⟨f, hexec⟩ := core_ok h
    have hread : Answered (.transactionFindUnique key) (some t) u.core w.core := exec_answered hexec
    exact hread.1
  · rename_i buyerId status found heq
    cases heq
    cases ht
    obtain ⟨s, heff⟩ := chat_ok h
    exact (transactionFindFirst_spec heff).1
  · cases ht

/-- A dispute that is read is stored. -/
theorem disputeRead_mem {e : Event Op.Ans Err} (h : exec e.op o u = some (e.ans, w)) {d : Dispute}
    (hd : disputeRead e = some d) : d ∈ w.core.disputes := by
  obtain ⟨op, a⟩ := e
  unfold disputeRead at hd
  split at hd
  · rename_i id found heq
    cases heq
    cases hd
    obtain ⟨f, hexec⟩ := core_ok h
    have hmem := (found_dispute hexec).1
    rwa [← exec_disputes (fun _ => rfl) hexec] at hmem
  · rename_i c d' heq
    cases heq
    cases hd
    obtain ⟨f, hexec⟩ := core_ok h
    rcases exec_cases hexec with ⟨-, e, he⟩ | ⟨s, -, hw, ha | ⟨e, he⟩⟩
    · cases he
    · simp only [Meduman.effect] at hw ha
      split at ha
      · cases ha
      · rename_i hwrite
        cases ha
        rw [hw, hwrite]
        exact (Table.mem_create hwrite).mpr (.inr rfl)
    · cases he
  · rename_i id statuses found heq
    cases heq
    cases hd
    obtain ⟨s, heff⟩ := chat_ok h
    obtain ⟨hfound, rfl⟩ := Prod.ext_iff.mp heff
    exact (Table.findNewest_spec (Except.ok.inj hfound)).1
  · cases hd

/-- An identity that is read is stored. -/
theorem identityRead_mem {e : Event Op.Ans Err} (h : exec e.op o u = some (e.ans, w))
    {i : ChatIdentity} (hi : identityRead e = some i) : i ∈ w.accounts.chatIdentities := by
  obtain ⟨op, a⟩ := e
  unfold identityRead at hi
  split at hi
  · rename_i platform account found heq
    cases heq
    cases hi
    obtain ⟨f, a₀, l, -, hexec, ha, hw⟩ := exec_linking h
    cases a₀ with
    | error e => cases ha
    | ok found =>
        cases Except.ok.inj ha
        obtain ⟨_, -, heff⟩ := Backend.exec_ok hexec
        obtain ⟨hfound, rfl⟩ := Prod.ext_iff.mp heff
        have hmem := (Table.find_spec (Except.ok.inj hfound)).1
        rcases hw with ⟨rfl, -⟩ | rfl <;> exact hmem
  · rename_i d made heq
    cases heq
    cases hi
    obtain ⟨f, a₀, l, rfl, hexec, ha, hw⟩ := exec_linking h
    cases a₀ with
    | error e => cases ha
    | ok made =>
        cases Except.ok.inj ha
        rcases Backend.exec_cases hexec with ⟨-, e, he⟩ | ⟨_, hsupply, -⟩
        · cases he
        replace hw : w = u.putLinking l := by
          refine hw.resolve_left fun hno => ?_
          simp [carriesOut, Linking.Op.writes, hsupply] at hno
        obtain ⟨s, -, heff⟩ := Backend.exec_ok hexec
        simp only [Linking.backend, Linking.effect, Linking.createIdentity] at heff
        split at heff
        · rename_i users identities husers hcreate
          obtain ⟨hi, rfl⟩ := Prod.ext_iff.mp heff
          obtain rfl := Except.ok.inj hi
          rw [hw]
          exact (Table.mem_create hcreate).mpr (.inr rfl)
        · cases (Prod.ext_iff.mp heff).1
  · cases hi

/-- A session that is read is stored, or new. -/
theorem sessionRead_mem {e : Event Op.Ans Err} (h : exec e.op o u = some (e.ans, w))
    {s : ChatSession} (hs : sessionRead e = some s) :
    s ∈ w.sessions ∨ ∃ id t, s = freshSession id t := by
  obtain ⟨op, a⟩ := e
  unfold sessionRead at hs
  split at hs
  · rename_i id found heq
    cases heq
    cases hs
    obtain ⟨_, heff⟩ := chat_ok h
    obtain ⟨hfound, rfl⟩ := Prod.ext_iff.mp heff
    exact .inl (Table.find_spec (Except.ok.inj hfound)).1
  · rename_i id t s' heq
    cases heq
    cases hs
    obtain ⟨_, heff⟩ := chat_ok h
    simp only [effect, upsertSession] at heff
    split at heff
    · cases (Prod.ext_iff.mp heff).1
    · exact .inr ⟨id, t, (Except.ok.inj (Prod.ext_iff.mp heff).1).symm⟩
  · cases hs

/-- The identity of an account is one of this account. -/
def SenderRead : Event Linking.Op.Ans Linking.Err → Prop
  | ⟨.chatIdentityFindByAccount platform platformUserId, .ok (some i)⟩ =>
      i.platform = platform ∧ i.platformUserId = platformUserId
  | ⟨.identityCreate d, .ok i⟩ => i.platform = d.platform ∧ i.platformUserId = d.platformUserId
  | _ => True

theorem senderRead_exec {op : Linking.Op} {f : Fate Linking.Supply} {a : Except Linking.Err op.Ans}
    {l l' : Linking.World} (h : Linking.backend.exec op f l = some (a, l')) : SenderRead ⟨op, a⟩ := by
  unfold SenderRead
  split
  · rename_i platform platformUserId i heq
    cases heq
    obtain ⟨_, -, heff⟩ := Backend.exec_ok h
    have hsel := (Table.find_spec (Except.ok.inj (Prod.ext_iff.mp heff).1)).2
    simpa using hsel
  · rename_i d i heq
    cases heq
    obtain ⟨_, -, heff⟩ := Backend.exec_ok h
    simp only [Linking.backend, Linking.effect, Linking.createIdentity] at heff
    split at heff
    · cases heff
      exact ⟨rfl, rfl⟩
    · cases heff
  · trivial

/-- What an answer says of the row it gives. -/
def Answers : Event Op.Ans Err → Prop
  | ⟨.core (.transactionFindUnique (.id id)), .ok (some t)⟩ => t.id = id
  | ⟨.core (.disputeFindUnique id), .ok (some d)⟩ => d.id = id
  | ⟨.core (.disputeCreate c), .ok d⟩ => d.transactionId = c.transactionId
  | ⟨.chat (.transactionFindFirst buyerId _), .ok (some t)⟩ => t.buyerId = some buyerId
  | ⟨.chat (.disputeFindFirst id _), .ok (some d)⟩ => d.transactionId = id
  | ⟨.chat (.chatSessionFindUnique id), .ok (some s)⟩ => s.chatIdentityId = id
  | ⟨.chat (.chatSessionUpsert id _), .ok s⟩ => s.chatIdentityId = id
  | ⟨.linking op, a⟩ => SenderRead ⟨op, linkingEmbedding.back op a⟩
  | _ => True

/-- **What is answered** is what was asked for. -/
theorem answers_exec (h : exec op o u = some (a, w)) : Answers ⟨op, a⟩ := by
  unfold Answers
  split
  · rename_i id t heq
    cases heq
    obtain ⟨f, hexec⟩ := core_ok h
    have hread : Answered (.transactionFindUnique (.id id)) (some t) u.core w.core :=
      exec_answered hexec
    exact beq_iff_eq.mp hread.2
  · rename_i id d heq
    cases heq
    obtain ⟨f, hexec⟩ := core_ok h
    exact (found_dispute hexec).2
  · rename_i c d heq
    cases heq
    obtain ⟨f, hexec⟩ := core_ok h
    rcases exec_cases hexec with ⟨-, e, he⟩ | ⟨s, -, -, ha | ⟨e, he⟩⟩
    · cases he
    · simp only [Meduman.effect] at ha
      split at ha <;> cases ha
      rfl
    · cases he
  · rename_i buyerId status t heq
    cases heq
    obtain ⟨s, heff⟩ := chat_ok h
    exact (transactionFindFirst_spec heff).2
  · rename_i id statuses d heq
    cases heq
    obtain ⟨s, heff⟩ := chat_ok h
    have hsel := (Table.findNewest_spec (Except.ok.inj (Prod.ext_iff.mp heff).1)).2
    exact beq_iff_eq.mp (Bool.and_eq_true_iff.mp hsel).1
  · rename_i id s heq
    cases heq
    obtain ⟨_, heff⟩ := chat_ok h
    exact beq_iff_eq.mp (Table.find_spec (Except.ok.inj (Prod.ext_iff.mp heff).1)).2
  · rename_i id t s heq
    cases heq
    obtain ⟨_, heff⟩ := chat_ok h
    simp only [effect, upsertSession] at heff
    split at heff
    · cases (Prod.ext_iff.mp heff).1
    · rw [← Except.ok.inj (Prod.ext_iff.mp heff).1]
      rfl
  · rename_i op a heq
    cases heq
    obtain ⟨f, a₀, l, -, hexec, rfl, -⟩ := exec_linking h
    cases a₀ <;> exact senderRead_exec hexec
  · trivial

end Meduman.Dialog
