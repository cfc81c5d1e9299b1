import Mathlib.Data.List.MinMax
import Meduman.Core.Does
import Meduman.Core.Served
import Meduman.Dialog.Steps
import Meduman.Effect.Serial

/-!
# The transaction a code confirms

A buyer types a code and nothing else; the dialog takes it to be for the one of the buyer's waiting
transactions that was updated last.

* `waiting`, `Carries` : the transactions that wait, and the code that counts for one
* `Undisturbed` : nothing fails, and the row found is one updated last
* `Confirms` : what a code should do, for its transaction and to the others
* `verify_matching`, `verify_other` : the verification of a matching code, and of another
* `apply_confirm`, `apply_disputed` : the confirmation, without a dispute and with one
* **`code_confirms`** : a code confirms its transaction exactly if that was updated last, after all the
  others that wait, and no dispute freezes it
* `code_miscounted` : a code that counts as an attempt against another transaction's
-/

set_option autoImplicit false

namespace Meduman.Dialog

open Effect Effect.Prog
open Chat (ChatAdapter ChatInboundJobData)
open Otp (OtpCode VerifyOtpInput)

/-! ## What a code should do -/

/-- The transactions that wait for the confirmation of a buyer. -/
def waiting (buyerId : Uuid) (w : World) : List Transaction :=
  w.core.transactions.filter fun t => t.buyerId == some buyerId && t.status == .confirmationPending

/-- The one code that counts for a transaction: neither expired nor locked. -/
structure Carries (env : Env) (w : World) (t : Transaction) (k : OtpCode) : Prop where
  newest : Otp.newest t.id .deliveryConfirmation w.otp.otpCodes = [k]
  unexpired : w.core.clock < k.expiresAt
  unlocked : k.attemptCount < env.otp.otpMaxAttempts

/-- A dispute freezes the transaction. -/
def frozen (w : World) (t : Transaction) : Bool :=
  w.core.disputes.rows.any fun d =>
    d.transactionId == t.id && freezingDisputeStatuses.contains d.status

/-- Every operation is served; the query for the buyer's transaction returns one that was updated
last, of those that wait in `w`. -/
def Undisturbed (touched : Uuid → Int) (buyerId : Uuid) (w : World) : Choice → Prop
  | .chat (.served s) => ∀ t, (waiting buyerId w)[s.pick]?.or (waiting buyerId w)[0]? = some t →
      ∀ t' ∈ waiting buyerId w, touched t'.id ≤ touched t.id
  | .core (.served _) | .otp (.served _) | .linking (.served _) | .gateway (.served _)
  | .sellers (.served _) => True
  | _ => False

/-- The transaction is confirmed, every other one is as it was, and so is every code of another. -/
structure Confirms (w w' : World) (t : Transaction) : Prop where
  confirmed : { t with status := .releaseProcessing } ∈ w'.core.transactions
  transactions : ∀ t' ∈ w.core.transactions, t' ≠ t → t' ∈ w'.core.transactions
  codes : ∀ k ∈ w.otp.otpCodes, k.transactionId ≠ t.id → k ∈ w'.otp.otpCodes

/-! ## The verification of a code -/

/-- A code is verified with every operation served. -/
abbrev Verifies (env : Env) (input : VerifyOtpInput) :=
  (Otp.verify env.otp input).Ends (Otp.service env.otp) fun f => ∃ s, f = .served s

variable {env : Env} {input : VerifyOtpInput} {k : OtpCode}

theorem exec_of_served {op : Otp.Op} {f : Fate Otp.Supply} {u v : Otp.World}
    {a : Except Otp.Err op.Ans} (hf : ∃ s, f = .served s)
    (h : Otp.backend.exec op f u = some (a, v)) : ∃ s, Otp.effect s u op = (a, v) := by
  obtain ⟨s, rfl⟩ := hf
  exact ⟨s, (Backend.exec_served h).symm⟩

/-- The next operation answers, and the rest goes on from there. -/
theorem ends_await {β : Type} {op : Otp.Op} {f : op.Ans → Otp.Program β} {u v : Otp.World}
    {r : Except Otp.Err β}
    (h : (Otp.await op >>= f).Ends (Otp.service env.otp) (fun f => ∃ s, f = .served s) u r v) :
    ∃ s, After (Otp.service env.otp) (fun f => ∃ s, f = .served s) f (Otp.effect s u op).1
      (Otp.effect s u op).2 r v := by
  obtain ⟨a, w, hop, hf⟩ := (ends_bind _ _ _).mp h
  obtain ⟨o, ho, he⟩ := (ends_perform _ _).mp hop
  obtain ⟨s, heff⟩ := exec_of_served ho he
  obtain ⟨rfl, rfl⟩ := Prod.ext_iff.mp heff
  exact ⟨s, hf⟩

theorem fail_ends {reason : Otp.OtpFailureReason} {id : Option Uuid} {u v : Otp.World}
    {r : Except Otp.Err Unit} (h : (Otp.fail input reason id).Ends (Otp.service env.otp)
      (fun f => ∃ s, f = .served s) u r v) :
    r = .error (.otpVerification reason "Invalid or expired code") := by
  obtain ⟨a, w, htry, h⟩ := (ends_bind _ _ _).mp h
  obtain ⟨b, w₂, hop, hh⟩ := (ends_tryCatch _ _ _).mp htry
  cases b with
  | ok b =>
      obtain ⟨rfl, rfl⟩ := hh
      exact h.1
  | error e =>
      obtain ⟨rfl, rfl⟩ := hh
      exact h.1

theorem picks_only (k : OtpCode) (n : Nat) : [k][n]?.or [k][0]? = some k := by
  cases n <;> rfl

/-- The code that counts is one of the transaction, and not consumed. -/
theorem newest_mem {u : Otp.World} {id : Uuid} {p : Otp.OtpPurpose}
    (hk : Otp.newest id p u.otpCodes = [k]) :
    k ∈ u.otpCodes ∧ k.transactionId = id ∧ k.consumedAt = none := by
  have hmem : k ∈ Otp.newest id p u.otpCodes := by rw [hk]; exact List.mem_singleton_self k
  obtain ⟨hin, hactive⟩ := Table.mem_filter.mp (List.mem_of_mem_filter hmem)
  simp only [Otp.active, Bool.and_eq_true, beq_iff_eq, Option.isNone_iff_eq_none] at hactive
  exact ⟨hin, hactive.1.1, hactive.2⟩

/-- **A matching code** is consumed, and no code of another transaction changes. -/
theorem verify_matching {u v : Otp.World} {r : Except Otp.Err Unit}
    (hk : Otp.newest input.transactionId input.purpose u.otpCodes = [k])
    (hexp : u.clock < k.expiresAt) (hmax : k.attemptCount < env.otp.otpMaxAttempts)
    (hmatch : Otp.matchesCode env.otp input.code k = true) (h : Verifies env input u r v) :
    r = .ok () ∧ ∀ c ∈ u.otpCodes, c.transactionId ≠ input.transactionId → c ∈ v.otpCodes := by
  obtain ⟨hin, hid, hopen⟩ := newest_mem hk
  obtain ⟨s, h⟩ := ends_await h
  simp only [Otp.effect, hk, picks_only, after_ok] at h
  obtain ⟨s, h⟩ := ends_await h
  simp only [Otp.effect, after_ok, Int.not_le.mpr hexp, Nat.not_le.mpr hmax, if_false] at h
  obtain ⟨s, h⟩ := ends_await h
  replace hmatch : Otp.timingSafeEqualHex (env.otp.hashCode input.code) k.codeHash = true := hmatch
  simp only [Otp.effect, after_ok, hmatch, Bool.not_true, Bool.false_eq_true, if_false] at h
  obtain ⟨s, h⟩ := ends_await h
  simp only [Otp.effect, after_ok] at h
  obtain ⟨s, h⟩ := ends_await h
  have hself : Constrained.clash k k = true := by simp [Constrained.clash]
  have honly : ∀ b ∈ u.otpCodes, (b.id == k.id && b.consumedAt.isNone) = true → b = k :=
    fun b hb hsel => Table.eq_of_clash hb hin (Bool.and_eq_true_iff.mp hsel).1
  obtain ⟨codes, hwrite⟩ : ∃ codes, u.otpCodes.update (fun c => c.id == k.id && c.consumedAt.isNone)
      (fun c => { c with consumedAt := some u.clock }) = some codes :=
    Table.update_isSome fun a _ b _ => by split <;> split <;> rfl
  have hcount : u.otpCodes.count (fun c => c.id == k.id && c.consumedAt.isNone) = 1 :=
    Table.count_one hin (by simp [hopen]) hself honly
  simp only [Otp.effect, Otp.updateMany, hwrite, hcount, after_ok, ne_eq, not_true_eq_false,
    if_false] at h
  obtain ⟨o, ho, he⟩ := (ends_perform _ _).mp h
  obtain ⟨s, heff⟩ := exec_of_served ho he
  cases heff
  refine ⟨rfl, fun c hc hne => Table.mem_update_of_not hwrite hc ?_⟩
  by_contra hsel
  exact hne ((honly c hc (by simpa using hsel)) ▸ hid)

/-- **Another code** is refused. -/
theorem verify_other {u v : Otp.World} {r : Except Otp.Err Unit}
    (hk : Otp.newest input.transactionId input.purpose u.otpCodes = [k])
    (hmatch : Otp.matchesCode env.otp input.code k = false) (h : Verifies env input u r v) :
    ∃ reason message, r = .error (.otpVerification reason message) := by
  obtain ⟨hin, -, -⟩ := newest_mem hk
  obtain ⟨s, h⟩ := ends_await h
  simp only [Otp.effect, hk, picks_only, after_ok] at h
  obtain ⟨s, h⟩ := ends_await h
  simp only [Otp.effect, after_ok] at h
  split at h
  · exact ⟨_, _, fail_ends h⟩
  split at h
  · exact ⟨_, _, fail_ends h⟩
  obtain ⟨s, h⟩ := ends_await h
  replace hmatch : Otp.timingSafeEqualHex (env.otp.hashCode input.code) k.codeHash = false := hmatch
  simp only [Otp.effect, after_ok, hmatch, Bool.not_false, if_true] at h
  obtain ⟨s, h⟩ := ends_await h
  have hfind : (u.otpCodes.find fun c => c.id == k.id) = some k :=
    Table.find_eq hin (by simp) fun b hb hsel => Table.eq_of_clash hb hin hsel
  obtain ⟨codes, hwrite⟩ : ∃ codes, u.otpCodes.update (fun c => c.id == k.id)
      (fun c => { c with attemptCount := c.attemptCount + 1 }) = some codes :=
    Table.update_isSome fun a _ b _ => by split <;> split <;> rfl
  simp only [Otp.effect, Otp.incrementAttempts, hfind, hwrite, after_ok] at h
  exact ⟨_, _, fail_ends h⟩

/-! ## The confirmation of a transaction -/

section Core

open Meduman (Transaction)

variable {settings : Meduman.Env} {request : ApplyTransitionInput} {t : Transaction}
  {u v : Meduman.World} {r : Except Meduman.Err Transaction}

/-- **The confirmation** of a waiting transaction without a freezing dispute. -/
theorem apply_confirm (ht : t ∈ u.transactions) (hid : t.id = request.transactionId)
    (hst : t.status = .confirmationPending) (hevent : request.event = .buyerConfirm)
    (hopen : request.hasOpenDispute = none)
    (hfree : (u.disputes.filter fun d => d.transactionId == request.transactionId &&
      freezingDisputeStatuses.contains d.status) = [])
    (h : Serves settings (apply request) u r v) :
    (∃ a, r = .ok a) ∧ { t with status := .releaseProcessing } ∈ v.transactions ∧
      ∀ t' ∈ u.transactions, t' ≠ t → t' ∈ v.transactions := by
  unfold apply at h
  obtain ⟨s, -, h⟩ := serves_await h
  have hgo : transition t.status request.event (request.context t []) = .ok .releaseProcessing := by
    simp [transition, hst, hevent, enterReleaseProcessing, ApplyTransitionInput.context, hopen,
      accept]
  simp only [Meduman.effect, find_transaction ht hid, Option.map_some, after_ok, hfree, hgo] at h
  obtain ⟨s, -, h⟩ := serves_await h
  have hsel : ∀ b ∈ u.transactions,
      (b.id == request.transactionId && b.status == t.status) = true → b = t := fun b hb hbs => by
    refine Table.eq_of_clash hb ht ?_
    simp only [Bool.and_eq_true, beq_iff_eq] at hbs
    simp [Constrained.clash, hid, hbs.1]
  have hself : (t.id == request.transactionId && t.status == t.status) = true := by simp [hid]
  obtain ⟨rows, hwrite⟩ : ∃ rows, u.transactions.update
      (fun b => b.id == request.transactionId && b.status == t.status)
      (fun b => { b with status := .releaseProcessing }) = some rows :=
    Table.update_isSome fun a _ b _ => by split <;> split <;> rfl
  have hnone : recordForTransition request.event t .releaseProcessing = none := by
    rw [hevent]
    unfold recordForTransition
    cases t.merchantId <;> rfl
  simp only [Meduman.effect, commitTransition, ApplyTransitionInput.write,
    Table.find_eq ht hself hsel, hwrite, hnone, after_ok] at h
  obtain ⟨rfl, rfl⟩ := h
  refine ⟨⟨_, rfl⟩, Table.mem_update_of hwrite ht hself, fun t' ht' hne => ?_⟩
  refine Table.mem_update_of_not hwrite ht' ?_
  by_contra hno
  exact hne (hsel t' ht' (by simpa using hno))

/-- **With a freezing dispute** it is refused. -/
theorem apply_disputed (ht : t ∈ u.transactions) (hid : t.id = request.transactionId)
    (hst : t.status = .confirmationPending) (hevent : request.event = .buyerConfirm)
    (hopen : request.hasOpenDispute = none)
    (hdisputed : (u.disputes.filter fun d => d.transactionId == request.transactionId &&
      freezingDisputeStatuses.contains d.status) ≠ [])
    (h : Serves settings (apply request) u r v) : (∃ e, r = .error e) ∧ v = u := by
  unfold apply at h
  obtain ⟨s, -, h⟩ := serves_await h
  have hno : ∀ l : List Dispute, l ≠ [] → ∃ e,
      transition t.status request.event (request.context t l) = .error e := fun l hl => by
    simp [transition, hst, hevent, enterReleaseProcessing, ApplyTransitionInput.context, hopen,
      hl, reject]
  obtain ⟨e, he⟩ := hno _ hdisputed
  simp only [Meduman.effect, find_transaction ht hid, Option.map_some, after_ok, he] at h
  obtain ⟨rfl, rfl⟩ := h
  exact ⟨⟨_, rfl⟩, rfl⟩

end Core

/-! ## Both, from the dialog -/

variable {touched : Uuid → Int} {buyerId : Uuid} {w₀ w w' : World} {α : Type} {r : Except Err α}

/-- A dialog's program ends, in an undisturbed run from `w₀`. -/
abbrev Handles (env : Env) (touched : Uuid → Int) (buyerId : Uuid) (w₀ : World) {α : Type}
    (p : Program α) : World → Except Err α → World → Prop :=
  p.Ends (worker env) (Undisturbed touched buyerId w₀)

/-- An operation on the codes leaves what they only see. -/
theorem effect_frame (s : Otp.Supply) (u : Otp.World) (op : Otp.Op) :
    ∃ codes audits notifications,
      (Otp.effect s u op).2 = ⟨u.clock, u.transactions, codes, audits, notifications⟩ := by
  cases op with
  | otpCodeRetire id purpose t =>
      simp only [Otp.effect, Otp.updateMany]
      split <;> exact ⟨_, _, _, rfl⟩
  | otpCodeConsume id t =>
      simp only [Otp.effect, Otp.updateMany]
      split <;> exact ⟨_, _, _, rfl⟩
  | otpCodeCreate d =>
      simp only [Otp.effect]
      split <;> exact ⟨_, _, _, rfl⟩
  | otpCodeIncrementAttempts id =>
      simp only [Otp.effect, Otp.incrementAttempts]
      split
      · exact ⟨_, _, _, rfl⟩
      · split <;> exact ⟨_, _, _, rfl⟩
  | _ => exact ⟨_, _, _, rfl⟩

theorem effect_read (s : Otp.Supply) (u : Otp.World) {op : Otp.Op} (h : op.writes = false) :
    (Otp.effect s u op).2 = u := by
  cases op <;> first | rfl | cases h

/-- An operation on the codes, as they see it. -/
theorem otp_step {op : Otp.Op} {choice : Choice} {a : Except Err op.Ans} {u v : World}
    (hok : Undisturbed touched buyerId w₀ choice)
    (he : exec (.otp op) choice u = some (a, v)) : v.core = u.core ∧
      ∃ s, Otp.backend.exec op (.served s) u.codes = some (otpEmbedding.back op a, v.codes) := by
  cases choice with
  | otp f =>
      cases f with
      | served s =>
          obtain ⟨⟨a₀, l⟩, hexec, heq⟩ := Option.map_eq_some_iff.mp he
          obtain ⟨rfl, rfl⟩ := Prod.ext_iff.mp heq
          obtain rfl : l = (Otp.effect s u.codes op).2 :=
            (Prod.ext_iff.mp (Backend.exec_served hexec)).2
          refine ⟨by dsimp only; split <;> rfl, s, hexec.trans (congrArg some (Prod.ext ?_ ?_))⟩
          · cases a₀ <;> rfl
          · dsimp only
            split
            · obtain ⟨codes, audits, notifications, hframe⟩ := effect_frame s u.codes op
              rw [hframe]
              rfl
            · rename_i hno
              have hread : op.writes = false := by simpa [carriesOut, Fate.supply] using hno
              exact effect_read s u.codes hread
      | lost _ _ => exact hok.elim
      | failed _ => exact hok.elim
  | chat _ => cases he
  | core _ => cases he
  | linking _ => cases he
  | gateway _ => cases he
  | sellers _ => cases he

/-- What the one-time codes do for the dialog. -/
theorem otp_ends {p : Otp.Program α} (h : Handles env touched buyerId w₀ (otp p) w r w') :
    ∃ r₀ v, p.Ends (Otp.service env.otp) (fun f => ∃ s, f = .served s) w.codes r₀ v ∧
      r = r₀.mapError .otp ∧ w'.core = w.core ∧ w'.otp.otpCodes = v.otpCodes := by
  suffices hend : ∃ r₀ v, p.Ends (Otp.service env.otp) (fun f => ∃ s, f = .served s) w.codes r₀ v ∧
      r = r₀.mapError .otp ∧ w'.core = w.core ∧ w'.codes = v by
    obtain ⟨r₀, v, hp, hr, hcore, rfl⟩ := hend
    exact ⟨r₀, _, hp, hr, hcore, rfl⟩
  refine ends_embed (V := Otp.service env.otp)
    (S := fun (w' : World) (v : Otp.World) => w'.core = w.core ∧ w'.codes = v) ?_ ⟨rfl, rfl⟩ h
  rintro op choice a u' v' u ⟨hcore, rfl⟩ hok he
  obtain ⟨hsame, s, hexec⟩ := otp_step hok he
  exact ⟨.served s, _, ⟨s, rfl⟩, hexec, hsame.trans hcore, rfl⟩

/-- The core's settings; a confirmation reads none of them. -/
def settings : Meduman.Env := ⟨fun _ => "", fun _ => none, fun _ => none, 0, 0, 0, ""⟩

/-- What the core does for the dialog. -/
theorem core_ends {p : Meduman.Program α} (h : Handles env touched buyerId w₀ (core p) w r w') :
    ∃ r₀ c, Serves settings p w.core r₀ c ∧ r = r₀.mapError .core ∧ w' = { w with core := c } := by
  refine ends_embed (V := Meduman.core settings)
    (S := fun (w' : World) (c : Meduman.World) => w' = { w with core := c }) ?_ rfl h
  rintro op choice a u' v' u rfl hok he
  obtain ⟨f, a₀, rfl, hexec, rfl, hw⟩ := exec_core he
  refine ⟨f, v'.core, ?_, ?_, hw⟩
  · cases f with
    | served s => exact ⟨s, rfl⟩
    | lost _ _ => exact hok.elim
    | failed _ => exact hok.elim
  · rw [show (Meduman.core settings).exec op f u = some (a₀, v'.core) from hexec]
    cases a₀ <;> rfl

/-! ## The row that was found -/

variable {c : Caller} {code : String} {t : Transaction} {k : OtpCode}

/-- What the dialog does for the row it found. -/
def confirmFor (env : Env) (c : Caller) (code : String) (tx : Transaction) : Program String := do
  let refused ← Prog.tryCatch (do
    otp (Otp.verify env.otp
      { transactionId := tx.id, purpose := .deliveryConfirmation, code := code,
        actor := c.actor "BUYER" })
    pure false) fun
  | .otp (.otpVerification ..) => pure true
  | e => Prog.throw e
  if refused then pure "That code is invalid or expired. Ask the seller to resend if needed."
  else confirmDelivery c tx

/-- **The row found** waits for the caller, and none that waits was updated later. -/
theorem find_ends {r : Except Err String} (hne : waiting c.userId w ≠ [])
    (h : Handles env touched c.userId w (tryConfirmOtp env c code) w r w') :
    ∃ tx ∈ waiting c.userId w, (∀ t' ∈ waiting c.userId w, touched t'.id ≤ touched tx.id) ∧
      Handles env touched c.userId w (confirmFor env c code tx) w r w' := by
  obtain ⟨a, u, hop, h⟩ := (ends_bind _ _ _).mp h
  obtain ⟨choice, hok, he⟩ := (ends_perform _ _).mp hop
  obtain ⟨f, rfl, hexec⟩ := exec_chat he
  cases f with
  | served s =>
      obtain ⟨rfl, hu⟩ := Prod.ext_iff.mp (Backend.exec_served hexec)
      obtain rfl : u = w := hu
      obtain ⟨tx, htx, hmem⟩ : ∃ tx,
          (waiting c.userId u)[s.pick]?.or (waiting c.userId u)[0]? = some tx ∧
            tx ∈ waiting c.userId u := by
        obtain ⟨t₀, l, hl⟩ := List.exists_cons_of_ne_nil hne
        rw [hl]
        cases hpick : (t₀ :: l)[s.pick]? with
        | none => exact ⟨t₀, rfl, List.mem_cons_self⟩
        | some tx => exact ⟨tx, rfl, List.mem_of_getElem? hpick⟩
      refine ⟨tx, hmem, hok tx htx, ?_⟩
      simp only [backend, effect, waiting] at h htx
      rw [htx] at h
      exact h
  | lost _ _ => exact hok.elim
  | failed _ => exact hok.elim

/-- The code that counts, as the one-time codes see it. -/
theorem Carries.seen (h : Carries env w t k) :
    Otp.newest t.id .deliveryConfirmation w.codes.otpCodes = [k] := h.newest

/-- **A matching code** is consumed; the core and the codes of other transactions are as they were. -/
theorem refused_matching {tx : Transaction} {r : Except Err String} (hk : Carries env w tx k)
    (hmatch : Otp.matchesCode env.otp code k = true)
    (h : Handles env touched buyerId w₀ (confirmFor env c code tx) w r w') :
    ∃ u, u.core = w.core ∧
      (∀ k' ∈ w.otp.otpCodes, k'.transactionId ≠ tx.id → k' ∈ u.otp.otpCodes) ∧
      Handles env touched buyerId w₀ (confirmDelivery c tx) u r w' := by
  obtain ⟨a, u, htry, h⟩ := (ends_bind _ _ _).mp h
  obtain ⟨b, u₁, hbody, hhandled⟩ := (ends_tryCatch _ _ _).mp htry
  obtain ⟨d, u₂, hverify, hpure⟩ := (ends_bind _ _ _).mp hbody
  obtain ⟨r₀, v, hends, rfl, hcore, hcodes⟩ := otp_ends hverify
  obtain ⟨rfl, hothers⟩ := verify_matching hk.seen hk.unexpired hk.unlocked hmatch hends
  obtain ⟨rfl, rfl⟩ := hpure
  obtain ⟨rfl, rfl⟩ := hhandled
  exact ⟨u, hcore, fun k' hk' hne => hcodes ▸ hothers k' hk' hne, h⟩

/-- **Another code** is refused, and nothing but that transaction's code changes. -/
theorem refused_other {tx : Transaction} {r : Except Err String} (hk : Carries env w tx k)
    (hmatch : Otp.matchesCode env.otp code k = false)
    (h : Handles env touched buyerId w₀ (confirmFor env c code tx) w r w') :
    w'.core = w.core := by
  obtain ⟨a, u, htry, h⟩ := (ends_bind _ _ _).mp h
  obtain ⟨b, u₁, hbody, hhandled⟩ := (ends_tryCatch _ _ _).mp htry
  obtain ⟨d, u₂, hverify, hpure⟩ := (ends_bind _ _ _).mp hbody
  obtain ⟨r₀, v, hends, rfl, hcore, -⟩ := otp_ends hverify
  obtain ⟨reason, message, rfl⟩ := verify_other hk.seen hmatch hends
  obtain ⟨rfl, rfl⟩ := hpure
  obtain ⟨rfl, rfl⟩ := hhandled
  obtain ⟨-, rfl⟩ := h
  exact hcore

theorem enqueueRelease_transactions (id : Uuid) (u : Meduman.World) :
    (enqueueRelease id u).transactions = u.transactions := by
  unfold enqueueRelease
  split <;> rfl

/-- The freezing disputes of a transaction, as they are loaded. -/
theorem frozen_iff : frozen w t = true ↔ (w.core.disputes.filter fun d =>
    d.transactionId == t.id && freezingDisputeStatuses.contains d.status) ≠ [] := by
  simp [frozen, Table.filter, List.filter_eq_nil_iff, List.any_eq_true]

/-- **The confirmation** after a matching code. -/
theorem delivery_confirms {r : Except Err String} (ht : t ∈ w.core.transactions)
    (hst : t.status = .confirmationPending) (hfree : frozen w t = false)
    (h : Handles env touched buyerId w₀ (confirmDelivery c t) w r w') :
    { t with status := .releaseProcessing } ∈ w'.core.transactions ∧
      (∀ t' ∈ w.core.transactions, t' ≠ t → t' ∈ w'.core.transactions) ∧
      w'.otp = w.otp := by
  obtain ⟨a, u, happly, h⟩ := (ends_bind _ _ _).mp h
  obtain ⟨r₀, v, hserves, rfl, rfl⟩ := core_ends happly
  have hnone := mt frozen_iff.mpr (by rw [hfree]; exact Bool.false_ne_true)
  obtain ⟨⟨tx, rfl⟩, hrow, hothers⟩ :=
    apply_confirm ht rfl hst rfl rfl (not_not.mp hnone) hserves
  obtain ⟨b, u₁, hqueue, h⟩ := (ends_bind _ _ _).mp h
  obtain ⟨r₁, v₁, hqueued, rfl, rfl⟩ := core_ends hqueue
  obtain ⟨o, ho, he⟩ := (ends_perform _ _).mp hqueued
  obtain ⟨s, -, heff⟩ := Meduman.exec_of_served ho he
  obtain ⟨rfl, rfl⟩ := Prod.ext_iff.mp heff
  obtain ⟨-, rfl⟩ := h
  simp only [Meduman.effect, enqueueRelease_transactions]
  exact ⟨hrow, hothers, trivial⟩

/-- **A frozen transaction** is not confirmed. -/
theorem delivery_refused {r : Except Err String} (ht : t ∈ w.core.transactions)
    (hst : t.status = .confirmationPending) (hfrozen : frozen w t = true)
    (h : Handles env touched buyerId w₀ (confirmDelivery c t) w r w') : w'.core = w.core := by
  obtain ⟨a, u, happly, h⟩ := (ends_bind _ _ _).mp h
  obtain ⟨r₀, v, hserves, rfl, rfl⟩ := core_ends happly
  obtain ⟨⟨e, rfl⟩, rfl⟩ :=
    apply_disputed ht rfl hst rfl rfl (frozen_iff.mp hfrozen) hserves
  obtain ⟨-, rfl⟩ := h
  rfl

/-! ## The code of a transaction -/

theorem mem_waiting : t ∈ waiting buyerId w ↔ t ∈ w.core.transactions ∧ t.buyerId = some buyerId ∧
    t.status = .confirmationPending := by
  simp [waiting, Table.mem_filter]

/-- A code is not a command. -/
theorem code_no_command {text : String} (h : isOtpCode text = true) : isCommand text = false := by
  by_contra hcommand
  have hslash : text.toList.head? = some '/' := by simpa [isCommand] using hcommand
  obtain ⟨l, hl⟩ := List.head?_eq_some_iff.mp hslash
  simp only [isOtpCode, Bool.and_eq_true, hl, List.all_cons] at h
  exact absurd h.2.1 (by decide)

/-- In an idle chat, a code is tried. -/
theorem handle_code {adapter : ChatAdapter} {session : ChatSession} {job : ChatInboundJobData}
    (hidle : session.step = .idle) (hmedia : job.media = [])
    (hcode : isOtpCode (saidIn job) = true) :
    handle env adapter c session job = tryConfirmOtp env c (saidIn job) := by
  simp [handle, hmedia, code_no_command hcode, handleStep, hidle, hcode]

/-- Operations that can be served in every world. -/
def Unfailing (env : Env) (touched : Uuid → Int) (buyerId : Uuid) (w₀ : World) (op : Op) : Prop :=
  ∀ w, ∃ choice a u, Undisturbed touched buyerId w₀ choice ∧
    (worker env).exec op choice w = some (a, u)

theorem unfailing_otp {op : Otp.Op} (h : ∀ d, op ≠ .otpCodeCreate d) :
    Unfailing env touched buyerId w₀ (.otp op) := fun w => by
  have hfits : Otp.backend.fits ⟨buyerId, "", 0⟩ w.codes op = true := by
    cases op with
    | otpCodeCreate d => exact absurd rfl (h d)
    | _ => rfl
  have hsome : (exec (.otp op) (.otp (.served ⟨buyerId, "", 0⟩)) w).isSome = true := by
    rw [exec, Option.isSome_map, Backend.exec, if_pos hfits]
    rfl
  obtain ⟨⟨a, u⟩, hexec⟩ := Option.isSome_iff_exists.mp hsome
  exact ⟨.otp (.served ⟨buyerId, "", 0⟩), a, u, trivial, hexec⟩

theorem unfailing_core {op : Meduman.Op} (h : ∀ s u, op.fits s u = true) :
    Unfailing env touched buyerId w₀ (.core op) := fun w => by
  have hsome : (exec (.core op) (.core (.served { id := buyerId })) w).isSome = true := by
    rw [exec, Option.isSome_map, Meduman.exec, if_pos (h _ _)]
    rfl
  obtain ⟨⟨a, u⟩, hexec⟩ := Option.isSome_iff_exists.mp hsome
  exact ⟨.core (.served { id := buyerId }), a, u, trivial, hexec⟩

theorem fail_uses {reason : Otp.OtpFailureReason} {id : Option Uuid} :
    (Otp.fail input reason id).Uses fun op => ∀ d, op ≠ .otpCodeCreate d :=
  uses_bind (uses_tryCatch (uses_perform (by simp)) fun _ => trivial) fun _ => trivial

/-- A verification creates no code. -/
theorem verify_uses :
    (Otp.verify env.otp input).Uses fun op => ∀ d, op ≠ .otpCodeCreate d := by
  unfold Otp.verify
  refine uses_bind (uses_perform (by simp)) fun found => ?_
  cases found with
  | none => exact fail_uses
  | some k =>
      refine uses_bind (uses_perform (by simp)) fun now => ?_
      split
      · exact fail_uses
      split
      · exact fail_uses
      refine uses_bind (uses_perform (by simp)) fun same => ?_
      split
      · exact uses_bind (uses_perform (by simp)) fun _ => fail_uses
      refine uses_bind (uses_perform (by simp)) fun consumedAt => ?_
      refine uses_bind (uses_perform (by simp)) fun count => ?_
      split
      · exact fail_uses
      · exact uses_perform (by simp)

/-- Nothing stands in the way of a code. -/
theorem confirmFor_uses {tx : Transaction} :
    (confirmFor env c code tx).Uses (Unfailing env touched buyerId w₀) := by
  unfold confirmFor
  refine uses_bind (uses_tryCatch (uses_bind (uses_embed verify_uses fun op hop =>
    unfailing_otp hop) fun _ => trivial) fun e => ?_) fun refused => ?_
  · split <;> trivial
  · split
    · trivial
    · refine uses_bind (uses_embed (A := fun op => ∀ s u, op.fits s u = true) ?_ fun op hop =>
        unfailing_core hop) fun _ => uses_bind (uses_embed (A := fun op => ∀ s u,
          op.fits s u = true) (uses_perform fun _ _ => rfl) fun op hop => unfailing_core hop)
          fun _ => trivial
      exact apply_uses (fun _ _ => rfl) (fun _ _ _ => rfl) fun _ _ _ => rfl

/-- **A code is tried** for any row that waits and that no other was updated after. -/
theorem exists_handles (ht : t ∈ waiting c.userId w)
    (hlast : ∀ t' ∈ waiting c.userId w, touched t'.id ≤ touched t.id) :
    ∃ r w', Handles env touched c.userId w (confirmFor env c code t) w r w' ∧
      Handles env touched c.userId w (tryConfirmOtp env c code) w r w' := by
  obtain ⟨r, w', hends⟩ := Uses.exists_ends confirmFor_uses w
  refine ⟨r, w', hends, ?_⟩
  obtain ⟨n, hn⟩ := List.mem_iff_getElem?.mp ht
  have hpick : (waiting c.userId w)[n]?.or (waiting c.userId w)[0]? = some t := by
    rw [hn]
    rfl
  have hok : Undisturbed touched c.userId w (.chat (.served ⟨c.userId, n, "", 0⟩)) :=
    fun t' ht' => by
      obtain rfl : t = t' := Option.some.inj (hpick.symm.trans ht')
      exact hlast
  refine (ends_bind _ _ _).mpr ⟨.ok (some t), w, (ends_perform _ _).mpr ⟨_, hok, ?_⟩, hends⟩
  exact congrArg some (congrArg (fun found => (Except.ok found, w)) hpick)

/-- The row found is the code's own, and nothing freezes it. -/
theorem confirmFor_confirms {r : Except Err String} (ht : t ∈ waiting c.userId w)
    (hk : Carries env w t k) (hmatch : Otp.matchesCode env.otp code k = true)
    (hfree : frozen w t = false)
    (h : Handles env touched c.userId w (confirmFor env c code t) w r w') : Confirms w w' t := by
  obtain ⟨hmem, -, hst⟩ := mem_waiting.mp ht
  obtain ⟨u, hcore, hcodes, h⟩ := refused_matching hk hmatch h
  have hfree' : frozen u t = false := by rw [frozen, hcore]; exact hfree
  obtain ⟨hrow, hothers, hotp⟩ := delivery_confirms (hcore ▸ hmem) hst hfree' h
  exact ⟨hrow, fun t' ht' hne => hothers t' (hcore ▸ ht') hne,
    fun k' hk' hne => hotp ▸ hcodes k' hk' hne⟩

/-- The row found is another's, or frozen. -/
theorem confirmFor_misses {tx : Transaction} {r : Except Err String} (htx : tx ∈ waiting c.userId w)
    (hk : Carries env w tx k)
    (hmiss : Otp.matchesCode env.otp code k = false ∨ frozen w tx = true)
    (h : Handles env touched c.userId w (confirmFor env c code tx) w r w') : w'.core = w.core := by
  cases hmatch : Otp.matchesCode env.otp code k with
  | false => exact refused_other hk hmatch h
  | true =>
      obtain ⟨hmem, -, hst⟩ := mem_waiting.mp htx
      obtain ⟨u, hcore, -, h⟩ := refused_matching hk hmatch h
      have hfrozen : frozen u tx = true := by
        rw [frozen, hcore]
        exact hmiss.resolve_left (by simp [hmatch])
      exact (delivery_refused (hcore ▸ hmem) hst hfrozen h).trans hcore

/-- A transaction that still waits is not confirmed. -/
theorem Confirms.not_waiting (h : Confirms w w' t) (ht : t ∈ w.core.transactions)
    (hst : t.status = .confirmationPending) : w'.core ≠ w.core := fun hcore => by
  have hrow := h.confirmed
  rw [hcore] at hrow
  have hsame := Table.eq_of_clash ht hrow (by simp [Constrained.clash])
  rw [hsame] at hst
  cases hst

/-- **A code confirms its own transaction**, changing no other transaction and no other transaction's
code, exactly if that transaction was updated last, after all the others that wait for its buyer, and no
dispute freezes it. Codes are told apart, and each transaction that waits has one that counts. -/
theorem code_confirms (env : Env) (adapter : ChatAdapter) (c : Caller) (session : ChatSession)
    (job : ChatInboundJobData) (w : World) (touched : Uuid → Int) (t : Transaction)
    (hidle : session.step = .idle) (hmedia : job.media = [])
    (hcode : isOtpCode (saidIn job) = true) (ht : t ∈ waiting c.userId w)
    (hcodes : ∀ t' ∈ waiting c.userId w, ∃ k, Carries env w t' k ∧
      (Otp.matchesCode env.otp (saidIn job) k = true ↔ t' = t)) :
    (∃ r w', Handles env touched c.userId w (handle env adapter c session job) w r w') ∧
    ((∀ r w', Handles env touched c.userId w (handle env adapter c session job) w r w' →
        Confirms w w' t) ↔
      (∀ t' ∈ waiting c.userId w, t' ≠ t → touched t'.id < touched t.id) ∧
        frozen w t = false) := by
  rw [handle_code hidle hmedia hcode]
  have hne := List.ne_nil_of_mem ht
  obtain ⟨hmem, -, hst⟩ := mem_waiting.mp ht
  -- a row no other was updated after
  obtain ⟨last, hlast, hmax⟩ : ∃ last ∈ waiting c.userId w,
      ∀ t' ∈ waiting c.userId w, touched t'.id ≤ touched last.id := by
    obtain ⟨last, hargmax⟩ := Option.ne_none_iff_exists'.mp
      (mt List.argmax_eq_none.mp hne : (waiting c.userId w).argmax (fun t => touched t.id) ≠ none)
    exact ⟨last, List.argmax_mem hargmax, fun t' ht' =>
      List.le_of_mem_argmax (f := fun t : Transaction => touched t.id) ht' hargmax⟩
  refine ⟨?_, fun hall => ?_, fun ⟨hlatest, hfree⟩ r w' h => ?_⟩
  · obtain ⟨r, w', -, h⟩ := exists_handles hlast hmax
    exact ⟨r, w', h⟩
  · -- a row found that is another's, or frozen, leaves the transaction waiting
    have hmiss : ∀ tx ∈ waiting c.userId w,
        (∀ t' ∈ waiting c.userId w, touched t'.id ≤ touched tx.id) → tx = t ∧
          frozen w tx = false := fun tx htx hmax => by
      obtain ⟨k, hk, hown⟩ := hcodes tx htx
      obtain ⟨r, w', hrest, h⟩ := exists_handles htx hmax
      have hmoved := (hall r w' h).not_waiting hmem hst
      by_contra hno
      refine hmoved (confirmFor_misses htx hk ?_ hrest)
      rcases not_and_or.mp hno with hother | hfrozen
      · exact .inl (by simpa using mt hown.mp hother)
      · exact .inr (by simpa using hfrozen)
    obtain ⟨rfl, hfree⟩ := hmiss last hlast hmax
    refine ⟨fun t' ht' hne => lt_of_not_ge fun hge => hne ?_, hfree⟩
    exact (hmiss t' ht' fun t'' ht'' => (hmax t'' ht'').trans hge).1
  · obtain ⟨tx, htx, hmax, h⟩ := find_ends hne h
    obtain rfl : tx = t := by
      by_contra hother
      exact absurd (hmax t ht) (Int.not_le.mpr (hlatest tx htx hother))
    obtain ⟨k, hk, hown⟩ := hcodes tx htx
    exact confirmFor_confirms htx hk (hown.mpr rfl) hfree h

namespace Demo

/-- A hash that hides nothing, and five attempts. -/
def settings : Env where
  gateway := ⟨[], fun _ _ _ => true⟩
  linking := ⟨fun code => code, fun code => code, 8, 900, 5, "chat.example"⟩
  otp := ⟨fun code => code, 6, 300, 5⟩
  chatSessionTtlSeconds := 900

def buyer : Uuid := ⟨"00000000-0000-4000-8003-000000000001", by decide⟩

def seller : Uuid := ⟨"00000000-0000-4000-8003-000000000002", by decide⟩

def caller : Caller := ⟨⟨buyer, .telegram, "42", buyer, none⟩, ""⟩

/-- A delivered sale that waits for the buyer. -/
def sale (id : Uuid) (link : String) : Transaction where
  id := id
  publicLinkId := link
  sellerId := seller
  buyerId := some buyer
  title := "Phone"
  description := none
  amount := 1000
  currency := "NGN"
  status := .confirmationPending
  releaseRule := .buyerConfirmation
  expectedDeliveryDate := none
  feeModel := .sellerPays
  feeAmount := 0
  merchantId := none
  origin := .web

def phone : Transaction := sale buyer "phone"

def chair : Transaction := sale seller "chair"

def codeOf (t : Transaction) (hash : String) : OtpCode where
  id := t.id
  transactionId := t.id
  codeHash := hash
  purpose := .deliveryConfirmation
  expiresAt := 300000
  attemptCount := 0
  consumedAt := none
  createdAt := 0

/-- Two sales wait for one buyer, each with its code. -/
def world : World := { World.initial with
  core := { Meduman.World.initial with transactions := ⟨[phone, chair], by decide⟩ }
  otp := { Otp.World.initial with
    otpCodes := ⟨[codeOf phone "123456", codeOf chair "654321"], by decide⟩ } }

/-- The code of the phone. -/
def message : ChatInboundJobData := ⟨.telegram, "1", "42", none, some "123456", none, []⟩

def idle : ChatSession := freshSession buyer 900000

theorem waiting_eq : waiting caller.userId world = [phone, chair] := by decide

theorem codes_apart : ∀ t' ∈ waiting caller.userId world, ∃ k, Carries settings world t' k ∧
    (Otp.matchesCode settings.otp (saidIn message) k = true ↔ t' = phone) := by
  rw [waiting_eq]
  refine List.forall_mem_cons.mpr ⟨⟨codeOf phone "123456", ⟨by decide, by decide, by decide⟩,
    by decide⟩, List.forall_mem_singleton.mpr ⟨codeOf chair "654321", ⟨by decide, by decide,
      by decide⟩, by decide⟩⟩

/-- The second row is found, and its code does not match. -/
def second : List Choice :=
  .chat (.served ⟨buyer, 1, "", 0⟩) :: List.replicate 5 (.otp (.served ⟨buyer, "", 0⟩))

end Demo

set_option maxRecDepth 20000 in
/-- **A code that misses its transaction.** The chair was updated after the phone: the code of the phone
leaves the phone waiting, and counts as an attempt against the code of the chair. -/
theorem code_miscounted : (∀ t' ∈ waiting Demo.caller.userId Demo.world, ∃ k,
      Carries Demo.settings Demo.world t' k ∧
        (Otp.matchesCode Demo.settings.otp (saidIn Demo.message) k = true ↔ t' = Demo.phone)) ∧
    Demo.phone ∈ waiting Demo.caller.userId Demo.world ∧
    ∃ r w', Handles Demo.settings (fun id => if id = Demo.chair.id then 2 else 1) Demo.caller.userId
        Demo.world (handle Demo.settings .telegramAdapter Demo.caller Demo.idle Demo.message)
        Demo.world r w' ∧
      Demo.phone ∈ w'.core.transactions ∧ ¬ Confirms Demo.world w' Demo.phone ∧
      { Demo.codeOf Demo.chair "654321" with attemptCount := 1 } ∈ w'.otp.otpCodes := by
  have hrun : (((handle Demo.settings .telegramAdapter Demo.caller Demo.idle Demo.message).playWith
      (worker Demo.settings) Demo.second Demo.world).map fun r =>
        decide (r.2.core.transactions.rows = [Demo.phone, Demo.chair] ∧
          { Demo.codeOf Demo.chair "654321" with attemptCount := 1 } ∈ r.2.otp.otpCodes.rows)) =
      some true := by decide
  obtain ⟨⟨r, w'⟩, hplay, htest⟩ := Option.map_eq_some_iff.mp hrun
  obtain ⟨hrows, hcounted⟩ := of_decide_eq_true htest
  refine ⟨Demo.codes_apart, by decide, r, w', ends_of_playWith ?_ hplay, ?_, fun hno => ?_,
    hcounted⟩
  · intro choice hchoice
    rcases List.mem_cons.mp hchoice with rfl | hchoice
    · rintro t hpick t' ht'
      rw [Demo.waiting_eq] at hpick ht'
      obtain rfl : Demo.chair = t := Option.some.inj hpick
      have hlast : ∀ t' ∈ [Demo.phone, Demo.chair],
          (if t'.id = Demo.chair.id then (2 : Int) else 1) ≤ 2 := by decide
      exact hlast t' ht'
    · rw [(List.mem_replicate.mp hchoice).2]
      trivial
  · rw [Table.mem_def, hrows]
    decide
  · have hrow := hno.confirmed
    rw [Table.mem_def, hrows] at hrow
    exact absurd hrow (by decide)

/-- The code of the phone, which was updated after the chair. -/
theorem code_confirms_last :
    (∃ r w', Handles Demo.settings (fun id => if id = Demo.phone.id then 2 else 1) Demo.caller.userId
      Demo.world (handle Demo.settings .telegramAdapter Demo.caller Demo.idle Demo.message)
      Demo.world r w') ∧
    ∀ r w', Handles Demo.settings (fun id => if id = Demo.phone.id then 2 else 1) Demo.caller.userId
      Demo.world (handle Demo.settings .telegramAdapter Demo.caller Demo.idle Demo.message)
      Demo.world r w' → Confirms Demo.world w' Demo.phone := by
  obtain ⟨hrun, hconfirms⟩ := code_confirms Demo.settings .telegramAdapter Demo.caller Demo.idle
    Demo.message Demo.world (fun id => if id = Demo.phone.id then 2 else 1) Demo.phone rfl rfl
    (by decide) (by decide) Demo.codes_apart
  refine ⟨hrun, hconfirms.mpr ⟨?_, by decide⟩⟩
  rw [Demo.waiting_eq]
  decide

end Meduman.Dialog
