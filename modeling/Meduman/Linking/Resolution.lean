import Meduman.Effect.Serial
import Meduman.Linking.Codes
import Meduman.Linking.Counterparts

/-!
# What a failed resolution leaves

An admin completes a parked request. The request is promoted in a write of its own, before the merge and
before anything else that may fail.

* `Untouched` : the request is parked as before, nobody was merged, and its code is refused
* `FailsEarly` : the failures that come before the promotion
* **`failed_resolution`** : a failed resolution changes nothing just when it fails early
-/

set_option autoImplicit false

namespace Meduman.Linking

open Effect Chat

/-- What a resolution that failed should leave. -/
structure Untouched (env : Env) (r : ChatLinkRequest) (w w' : World) : Prop where
  parked : ∃ r' ∈ w'.linkRequests, r'.id = r.id ∧ r'.status = .pendingReview ∧
    r'.conflictReason = r.conflictReason
  unmerged : { w' with linkRequests := w.linkRequests, auditLogs := w.auditLogs } = w
  /-- whoever types the code is told that it is invalid -/
  refused : ∀ identity rawCode, env.hashLinkCode (normalizeLinkCode env rawCode) = r.codeHash →
    ∀ outcome u, (consume env identity rawCode).Ends (service env)
      (Prog.anyOutcome (service env)) w' (.ok outcome) u → outcome = .invalid

/-- The request cannot be completed as asked, or it is not read, or it is not promoted. -/
def FailsEarly (input : ResolveInput) (r : ChatLinkRequest) (fates : List (Fate Supply)) : Prop :=
  r.sourceUserId = none ∨ r.chatIdentityId = none ∨
    r.conflictReason = some .selfTransactionConflict ∨ input.keepProfile = none ∨
    (∃ message, fates[0]? = some (.failed message)) ∨ ∃ message, fates[1]? = some (.failed message)

/-- The request is live, or completed. -/
def Reopened (r : ChatLinkRequest) (w : World) : Prop :=
  ∃ r' ∈ w.linkRequests, r'.id = r.id ∧ (r'.status = .pending ∨ r'.status = .completed)

variable {env : Env} {input : ResolveInput} {r : ChatLinkRequest} {w w' u : World}

/-! ## Refused codes -/

theorem rejectCode_ends {identity : ChatIdentity} {reason : String} {outcome : ConsumeOutcome}
    (h : (rejectCode identity r reason).Ends (service env) (Prog.anyOutcome (service env)) w
      (.ok outcome) u) : outcome = .invalid := by
  obtain ⟨a, v, -, h⟩ := (Prog.ends_bind _ _ _).mp h
  cases a with
  | error e => cases h.1
  | ok a =>
      obtain ⟨b, v', -, h⟩ := (Prog.ends_bind _ _ _).mp h
      cases b with
      | error e => cases h.1
      | ok b => exact Except.ok.inj h.1

/-- A code whose request is not pending is refused. -/
theorem consume_refuses (hr : r ∈ w.linkRequests) (hstatus : r.status ≠ .pending)
    {identity : ChatIdentity} {rawCode : String}
    (hcode : env.hashLinkCode (normalizeLinkCode env rawCode) = r.codeHash)
    {outcome : ConsumeOutcome}
    (h : (consume env identity rawCode).Ends (service env) (Prog.anyOutcome (service env)) w
      (.ok outcome) u) : outcome = .invalid := by
  obtain ⟨a, v, hfind, h⟩ := (Prog.ends_bind _ _ _).mp h
  obtain ⟨fate, -, hfind⟩ := (Prog.ends_perform _ _).mp hfind
  cases a with
  | error e => cases h.1
  | ok found =>
      cases found with
      | none => exact Except.ok.inj h.1
      | some request =>
          obtain ⟨hrequest, hhash, -⟩ := findByHash_ok hfind
          have hsame : request = r :=
            Table.eq_of_clash hrequest hr (by simp [Constrained.clash, hhash, hcode])
          subst hsame
          simp only [Prog.after_ok, hstatus, ne_eq, not_false_eq_true, if_true] at h
          exact rejectCode_ends h

/-- Where nothing happened, nothing changed. -/
theorem untouched_self (hr : r ∈ w.linkRequests) (hparked : r.status = .pendingReview) :
    Untouched env r w w where
  parked := ⟨r, hr, rfl, hparked, rfl⟩
  unmerged := rfl
  refused _ _ hcode _ _ h := consume_refuses hr (by rw [hparked]; decide) hcode h

theorem Reopened.touched (hreopened : Reopened r w') : ¬ Untouched env r w w' := by
  rintro ⟨⟨r₁, hr₁, hid₁, hparked, -⟩, -, -⟩
  obtain ⟨r₂, hr₂, hid₂, hlive⟩ := hreopened
  have hsame : r₁ = r₂ := request_eq hr₁ hr₂ (hid₁.trans hid₂.symm)
  rw [hsame] at hparked
  rcases hlive with hlive | hlive <;> exact absurd (hparked.symm.trans hlive) (by decide)

/-! ## The promotion -/

/-- The promotion of a request succeeds where it is served. -/
theorem promote_effect (s : Supply) (hr : r ∈ w.linkRequests) : ∃ linkRequests,
    effect s w (.linkRequestUpdate r.id .promote) = (.ok (), { w with linkRequests }) ∧
      LinkRequestUpdate.promote.apply r ∈ linkRequests := by
  have hfind : (w.linkRequests.find fun q => q.id == r.id) = some r :=
    Table.find_eq hr (beq_self_eq_true _) fun q hq hid => request_eq hq hr (beq_iff_eq.mp hid)
  obtain ⟨linkRequests, hupdate⟩ := Table.update_isSome (t := w.linkRequests)
    (p := fun q => q.id == r.id) (f := LinkRequestUpdate.promote.apply)
    fun a _ b _ => by split <;> split <;> rfl
  refine ⟨linkRequests, ?_, Table.mem_update_of hupdate hr (beq_self_eq_true _)⟩
  simp only [effect, updateRequest, hfind, hupdate]

/-- The promotion fails with nothing done, or the request is live. -/
theorem promote_exec (hr : r ∈ w.linkRequests) {fate : Fate Supply} {a : Except Err Unit}
    (h : backend.exec (.linkRequestUpdate r.id .promote) fate w = some (a, u)) :
    ((∃ message, fate = .failed message) ∧ u = w ∧ ∃ e, a = .error e) ∨
      (∀ message, fate ≠ .failed message) ∧ Reopened r u := by
  have hdone : ∀ s, fate.supply = some s → Reopened r u := fun s hs => by
    obtain ⟨linkRequests, heff, hmem⟩ := promote_effect s hr
    rw [Backend.exec_done h hs]
    refine ⟨LinkRequestUpdate.promote.apply r, ?_, rfl, .inl rfl⟩
    show _ ∈ (effect s w (.linkRequestUpdate r.id .promote)).2.linkRequests
    rwa [heff]
  cases fate with
  | failed message =>
      obtain ⟨rfl, rfl⟩ := Prod.ext_iff.mp (Option.some.inj h)
      exact .inl ⟨⟨message, rfl⟩, rfl, _, rfl⟩
  | served s => exact .inr ⟨fun _ => nofun, hdone s rfl⟩
  | lost s message => exact .inr ⟨fun _ => nofun, hdone s rfl⟩

/-! ## After the promotion -/

/-- What a resolution awaits after the promotion. -/
def Finishes : Op → Prop
  | .chatIdentityFindUniqueOrThrow _ | .mergeAccounts .. | .now | .linkRequestUpdate _ (.complete ..)
  | .auditLogCreate _ => True
  | _ => False

/-- None of it parks the request again. -/
theorem reopened_exec {op : Op} {fate : Fate Supply} {a : Except Err op.Ans} (hop : Finishes op)
    (h : backend.exec op fate w = some (a, u)) (hreopened : Reopened r w) : Reopened r u := by
  obtain ⟨r', hr', hid, hlive⟩ := hreopened
  rcases requests_change h with hsame | ⟨target, t, rfl, -⟩ | ⟨d, s, rfl, -⟩ | ⟨id, d, rfl, hrows⟩
  · exact ⟨r', hsame ▸ hr', hid, hlive⟩
  · exact hop.elim
  · exact hop.elim
  · cases d with
    | complete adminId now =>
        refine ⟨(LinkRequestUpdate.complete adminId now).at id r',
          Table.mem_def.mpr (hrows ▸ List.mem_map_of_mem hr'), ?_⟩
        unfold LinkRequestUpdate.at
        split
        · exact ⟨hid, .inr rfl⟩
        · exact ⟨hid, hlive⟩
    | _ => exact hop.elim

/-- What does none but finish leaves the request live, or completed. -/
theorem reopened_ends {α : Type} {p : Program α} (hp : p.Uses Finishes) {e : Except Err α}
    (h : p.Ends (service env) (Prog.anyOutcome (service env)) w e u) (hreopened : Reopened r w) :
    Reopened r u := by
  refine h.keeps (A := Finishes) (R := fun (w u : World) => Reopened r w → Reopened r u)
    (fun _ => id) (fun huv hvw hu => hvw (huv hu)) ?_ hp hreopened
  exact fun hop he => reopened_exec hop he

/-! ## Failed resolutions -/

/-- A resolution fails early and changes nothing, or it fails after the promotion. -/
theorem resolve_fails (hr : r ∈ w.linkRequests) (hid : input.id = r.id)
    (hparked : r.status = .pendingReview) (hcomplete : input.outcome = .complete)
    {fates : List (Fate Supply)} {e : Err}
    (h : (resolve input).playWith (service env) fates w = some (.error e, w')) :
    FailsEarly input r fates ∧ w' = w ∨ ¬ FailsEarly input r fates ∧ Reopened r w' := by
  obtain ⟨fate, rest, a, u, rfl, hread, hrest⟩ := Prog.playWith_await h
  have hfind : (w.linkRequests.find fun q => q.id == input.id) = some r :=
    Table.find_eq hr (by rw [hid]; exact beq_self_eq_true _)
      fun q hq hq' => request_eq hq hr ((beq_iff_eq.mp hq').trans hid)
  cases fate with
  | failed message =>
      obtain ⟨rfl, rfl⟩ := Prod.ext_iff.mp (Option.some.inj hread)
      have hw := (Prod.ext_iff.mp (Option.some.inj hrest)).2
      exact .inl ⟨.inr (.inr (.inr (.inr (.inl ⟨message, rfl⟩)))), hw.symm⟩
  | lost s message => cases hread
  | served s =>
      obtain ⟨rfl, rfl⟩ : a = .ok (some r) ∧ u = w := by
        replace hread : backend.exec (.linkRequestFindUnique input.id) (.served s) w = some (a, u) :=
          hread
        have heff := Prod.mk.inj (Backend.exec_served hread)
        exact ⟨heff.1.trans (congrArg Except.ok hfind), heff.2⟩
      simp only [Prog.bind_ok, hparked, ne_eq, not_true_eq_false, if_false] at hrest
      split at hrest
      · rename_i source chatIdentityId hsource hidentity
        rw [if_neg (by rw [hcomplete]; decide)] at hrest
        split at hrest
        · rename_i hreason
          have hw := (Prod.ext_iff.mp (Option.some.inj hrest)).2
          exact .inl ⟨.inr (.inr (.inl hreason)), hw.symm⟩
        · rename_i hreason
          split at hrest
          · rename_i hkeep
            have hw := (Prod.ext_iff.mp (Option.some.inj hrest)).2
            exact .inl ⟨.inr (.inr (.inr (.inl hkeep))), hw.symm⟩
          · rename_i keepProfile hkeep
            obtain ⟨fate, rest, a, v, rfl, hpromote, htail⟩ := Prog.playWith_await hrest
            rw [hid] at hpromote
            rcases promote_exec hr hpromote with ⟨⟨message, rfl⟩, rfl, e', rfl⟩ | ⟨hdone, hreopened⟩
            · have hw := (Prod.ext_iff.mp (Option.some.inj htail)).2
              exact .inl ⟨.inr (.inr (.inr (.inr (.inr ⟨message, rfl⟩)))), hw.symm⟩
            · refine .inr ⟨?_, ?_⟩
              · rintro (hno | hno | hno | hno | ⟨message, hno⟩ | ⟨message, hno⟩)
                · rw [hsource] at hno
                  cases hno
                · rw [hidentity] at hno
                  cases hno
                · exact hreason hno
                · rw [hkeep] at hno
                  cases hno
                · cases hno
                · exact hdone message (Option.some.inj hno)
              · refine reopened_ends ?_ (Prog.ends_of_playWith (fun _ _ => trivial) htail) hreopened
                cases a with
                | error e' => exact uses_done _
                | ok a =>
                    simp only [Prog.bind_ok]
                    refine uses_bind (uses_perform trivial) fun identity => ?_
                    refine uses_bind (uses_perform trivial) fun report => ?_
                    refine uses_bind (uses_perform trivial) fun now => ?_
                    refine uses_bind (uses_perform trivial) fun _ => ?_
                    exact uses_bind (uses_perform trivial) fun _ => uses_done _
      · rename_i hside
        have hw := (Prod.ext_iff.mp (Option.some.inj hrest)).2
        refine .inl ⟨?_, hw.symm⟩
        cases hsource : r.sourceUserId with
        | none => exact .inl hsource
        | some source =>
            cases hidentity : r.chatIdentityId with
            | none => exact .inr (.inl hidentity)
            | some identity => exact (hside source identity hsource hidentity).elim

/-- **A failed resolution changes nothing just when it fails early.** Whatever the tables hold and
whatever becomes of its operations: where the completion of a parked request fails, the request is parked
as before, nobody is merged and its code is refused, if and only if the failure comes before the
promotion. -/
theorem failed_resolution (env : Env) (input : ResolveInput) (r : ChatLinkRequest) (w w' : World)
    (fates : List (Fate Supply)) (e : Err) (hr : r ∈ w.linkRequests) (hid : input.id = r.id)
    (hparked : r.status = .pendingReview) (hcomplete : input.outcome = .complete)
    (h : (resolve input).playWith (service env) fates w = some (.error e, w')) :
    Untouched env r w w' ↔ FailsEarly input r fates := by
  rcases resolve_fails hr hid hparked hcomplete h with ⟨hearly, rfl⟩ | ⟨hlate, hreopened⟩
  · exact ⟨fun _ => hearly, fun _ => untouched_self hr hparked⟩
  · exact ⟨fun huntouched => absurd huntouched hreopened.touched, fun hearly => absurd hearly hlate⟩

namespace Demo

/-- A request parked because both accounts sell. -/
def parked : ChatLinkRequest where
  id := sale
  codeHash := "CODE"
  targetUserId := webBorn
  platform := some .telegram
  platformUserId := some "42"
  chatIdentityId := some chatBorn
  sourceUserId := some chatBorn
  status := .pendingReview
  conflictReason := some .sellerProfileConflict
  attemptCount := 0
  expiresAt := 900000
  consumedAt := some 0
  resolvedAt := some 0
  resolvedBy := none

/-- The chat account of a user. -/
def identityOf (userId : Uuid) (platformUserId : String) : ChatIdentity where
  id := userId
  platform := .telegram
  platformUserId := platformUserId
  userId := userId
  displayName := none

/-- Two sellers to be merged, and another chat account. -/
def underReview : World :=
  { counterparts with
    users := ⟨[webUser chatBorn "chat", webUser webBorn "web", webUser otherBorn "other"], by decide⟩
    chatIdentities := ⟨[identityOf chatBorn "42", identityOf otherBorn "43"], by decide⟩
    linkRequests := ⟨[parked], List.pairwise_singleton _ _⟩
    transactions := .empty }

/-- An admin completes it. -/
def ruling (keepProfile : Option KeepProfile) : ResolveInput := ⟨sale, .complete, keepProfile, webBorn⟩

/-- The answer of an operation that is served. -/
def served : Fate Supply := .served ⟨otherBorn, ""⟩

/-- The identity cannot be read after the promotion. -/
def unread : List (Fate Supply) := [served, served, .failed "timeout"]

/-- What this resolution leaves. -/
def left : Option World :=
  ((resolve (ruling (some .target))).playWith (service settings) unread underReview).map Prod.snd

/-- How the other chat account fares with the code then. -/
def typed : Option (Except Err ConsumeOutcome) :=
  left.bind fun w => ((consume settings (identityOf otherBorn "43") "CODE").playWith
    (service settings) (List.replicate 10 served) w).map Prod.fst

end Demo

set_option maxRecDepth 20000 in
/-- **After a resolution that failed the code links another chat account.** -/
theorem code_revived : ¬ ∀ (env : Env) (input : ResolveInput) (r : ChatLinkRequest) (w w' : World)
    (fates : List (Fate Supply)) (e : Err), r ∈ w.linkRequests → input.id = r.id →
      r.status = .pendingReview → input.outcome = .complete →
      (resolve input).playWith (service env) fates w = some (.error e, w') →
        Untouched env r w w' := by
  intro hall
  have hfails : ((resolve (Demo.ruling (some .target))).playWith (service Demo.settings) Demo.unread
      Demo.underReview).map (fun x => x.1.toBool) = some false := by decide
  have htyped : Demo.typed.map Except.toOption = some (some (.linked .telegram)) := by decide
  obtain ⟨⟨result, w'⟩, hplay, hresult⟩ := Option.map_eq_some_iff.mp hfails
  cases result with
  | ok status => cases hresult
  | error e =>
      have huntouched := hall _ _ Demo.parked _ _ _ _ (List.mem_singleton_self _) rfl rfl rfl hplay
      have hleft : Demo.left = some w' := by
        rw [Demo.left, hplay]
        rfl
      rw [Demo.typed, hleft, Option.bind_some, Option.map_map] at htyped
      obtain ⟨⟨answer, u⟩, hconsume, hlinked⟩ := Option.map_eq_some_iff.mp htyped
      cases answer with
      | error e => cases hlinked
      | ok outcome =>
          have hinvalid := huntouched.refused _ "CODE" (by decide) outcome u
            (Prog.ends_of_playWith (fun _ _ => trivial) hconsume)
          have houtcome : outcome = .linked .telegram := Option.some.inj hlinked
          exact absurd (houtcome.symm.trans hinvalid) (by decide)

/-- A resolution without a choice changes nothing. -/
theorem failed_resolution_unruled : ∃ w' e,
    (resolve (Demo.ruling none)).playWith (service Demo.settings) [Demo.served] Demo.underReview =
      some (.error e, w') ∧ Untouched Demo.settings Demo.parked Demo.underReview w' :=
  ⟨_, _, rfl, (failed_resolution Demo.settings (Demo.ruling none) Demo.parked Demo.underReview _
    [Demo.served] _ (List.mem_singleton_self _) rfl rfl rfl rfl).mpr (.inr (.inr (.inr (.inl rfl))))⟩

end Meduman.Linking
