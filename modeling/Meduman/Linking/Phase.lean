import Meduman.Effect.Task
import Meduman.Linking.Does

/-!
# How far a call has come

A call that mints supersedes the earlier codes and then creates its own. A call that consumes or
resolves reads a request, finds it live, merges and records the merge.

* `Phase`, `phase` : where a call stands, read off its history
* `Promises` : what a call has seen before each of its operations
* **`code_promises`** : every call keeps to it
-/

set_option autoImplicit false

namespace Meduman.Linking

open Effect Chat

abbrev Hist := History Op.Ans Err

/-- Where a call stands, with the request it works on. -/
inductive Phase
  | idle
  /-- The earlier codes are superseded, and the new one is not there yet. -/
  | clearing
  /-- It read a `PENDING` request. -/
  | typed (r : ChatLinkRequest)
  /-- And found it unexpired. -/
  | checked (r : ChatLinkRequest)
  /-- It read a request under review. -/
  | review (r : ChatLinkRequest)
  /-- And made it `PENDING` again. -/
  | promoted (r : ChatLinkRequest)
  | merged (r : ChatLinkRequest)
  /-- The merge is recorded. -/
  | linked (r : ChatLinkRequest)
  /-- It is unknown whether the merge is recorded. -/
  | astray (r : ChatLinkRequest)
  | over
deriving DecidableEq

def Phase.step : Phase → Event Op.Ans Err → Phase
  | ph, ⟨.linkRequestUpdate _ .countAttempt, _⟩ => ph
  | .idle, ⟨.linkRequestCancel .., .ok _⟩ => .clearing
  | .clearing, ⟨.linkRequestCreate _, _⟩ => .over
  | .idle, ⟨.linkRequestFindByHash _, .ok (some r)⟩ => if r.status = .pending then .typed r else .over
  | .typed r, ⟨.now, .ok now⟩ => if now < r.expiresAt then .checked r else .over
  | .idle, ⟨.linkRequestFindUnique _, .ok (some r)⟩ =>
      if r.status = .pendingReview then .review r else .over
  | .review r, ⟨.linkRequestUpdate _ .promote, .ok _⟩ => .promoted (LinkRequestUpdate.promote.apply r)
  | .checked r, ⟨.mergeAccounts .., .ok _⟩ => .merged r
  | .promoted r, ⟨.mergeAccounts .., .ok _⟩ => .merged r
  | .merged r, ⟨.linkRequestUpdate .., .ok _⟩ => .linked r
  | .merged r, ⟨.linkRequestUpdate .., .error _⟩ => .astray r
  | .checked _, ⟨.linkRequestUpdate .., _⟩ => .over
  | .review _, ⟨.linkRequestUpdate .., _⟩ => .over
  | ph, _ => ph

attribute [local simp] Phase.step

/-- Where a call with this history stands. -/
def phase (h : Hist) : Phase := h.foldr (fun e ph => ph.step e) .idle

@[simp] theorem phase_nil : phase [] = .idle := rfl

@[simp] theorem phase_cons (e : Event Op.Ans Err) (h : Hist) : phase (e :: h) = (phase h).step e := rfl

/-- The identity an operation returned. -/
def identityRead : Event Op.Ans Err → Option ChatIdentity
  | ⟨.chatIdentityFindByAccount .., .ok found⟩ => found
  | ⟨.identityCreate _, .ok identity⟩ => some identity
  | _ => none

/-- The identity a message came from. -/
def identityOf (h : Hist) : Option ChatIdentity := h.findSome? identityRead

theorem identityOf_cons (e : Event Op.Ans Err) (h : Hist) :
    identityOf (e :: h) = (identityRead e).or (identityOf h) := by
  unfold identityOf
  rw [List.findSome?_cons]
  cases identityRead e <;> rfl

/-- An auth user was minted, or its user and identity were created. -/
def mintsUser : Event Op.Ans Err → Option (Option Uuid)
  | ⟨.createUser _, .ok id⟩ => some (some id)
  | ⟨.identityCreate _, _⟩ => some none
  | _ => none

/-- The auth user a call has minted and not yet mirrored. -/
def mintedUser (h : Hist) : Option Uuid := task mintsUser h

/-- What a call has seen before an operation. -/
def Promises (h : Hist) : Op → Prop
  | .chatIdentityFindByAccount .. => phase h = .idle
  | .identityCreate d => phase h = .idle ∧ mintedUser h = some d.authUserId
  | .linkRequestFindByHash _ => phase h = .idle ∧ ∃ i, identityOf h = some i
  | .linkRequestFindUnique _ | .linkRequestCancel .. => phase h = .idle
  | .linkRequestCreate _ => phase h = .clearing
  | .linkRequestUpdate id (.consumeAs data now) => ∃ r i, r.id = id ∧
      (phase h = .checked r ∧ data.status ≠ .pending ∨
        phase h = .merged r ∧ data.status = .completed) ∧
      (data.status = .pendingReview → i.userId ≠ r.targetUserId) ∧
      identityOf h = some i ∧ data.sourceUserId = i.userId ∧ data.chatIdentityId = i.id ∧
      ⟨.now, .ok now⟩ ∈ h
  | .linkRequestUpdate id .promote | .linkRequestUpdate id (.reject ..) =>
      ∃ r, phase h = .review r ∧ r.id = id
  | .linkRequestUpdate id (.complete ..) => ∃ r, phase h = .merged r ∧ r.id = id
  | .mergeAccounts source target _ => ∃ r, r.targetUserId = target ∧
      (phase h = .checked r ∧ (∃ i, identityOf h = some i ∧ i.userId = source) ∧ source ≠ target ∨
        phase h = .promoted r ∧ r.sourceUserId = some source)
  | _ => True

/-- The clock answers, a request is found by its identifier, and an update of one refuses no merge. -/
def Possible : Event Op.Ans Err → Prop
  | ⟨.now, .error _⟩ => False
  | ⟨.linkRequestFindUnique id, .ok (some r)⟩ => r.id = id
  | ⟨.linkRequestUpdate .., .error (.linkMergeCollision _)⟩ => False
  | _ => True

theorem updateRequest_refuses {id : Uuid} {d : LinkRequestUpdate} {w w' : World}
    {kind : MergeCollisionKind} :
    updateRequest id d w ≠ (.error (.linkMergeCollision kind), w') := by
  unfold updateRequest
  split
  · simp [recordNotFound]
  · split <;> simp [uniqueViolation]

theorem possible_of_exec {op : Op} {o : Fate Supply} {u w : World} {a : Except Err op.Ans}
    (h : backend.exec op o u = some (a, w)) : Possible ⟨op, a⟩ := by
  unfold Possible
  split
  · rename_i e heq
    cases heq
    cases o with
    | served s => cases Backend.exec_served h
    | lost s message => simp [Backend.exec, backend, Op.writes] at h
    | failed message => simp [Backend.exec, backend, Op.fallible] at h
  · rename_i id r heq
    cases heq
    obtain ⟨s, -, heff⟩ := Backend.exec_ok h
    exact beq_iff_eq.mp (Table.find_spec (Except.ok.inj (Prod.ext_iff.mp heff).1)).2
  · rename_i id d kind heq
    cases heq
    cases o with
    | served s => exact absurd (Backend.exec_served h).symm updateRequest_refuses
    | lost s message => simp [Backend.exec, backend, Op.fault] at h
    | failed message => simp [Backend.exec, backend, Op.fault, Op.fallible] at h
  · trivial

/-! ## The calls keep their promises -/

variable {env : Env} {h : Hist} {α : Type}

/-- The operation has nothing to do with link requests. -/
def Aside : Op → Prop
  | .sellerProfileFindUnique _ | .transactionFindPair .. | .invoiceFindPair ..
  | .payoutFindInFlight _ | .auditLogCreate _ | .createUser _ | .generateLinkCode _
  | .chatIdentityFindUniqueOrThrow _ => True
  | _ => False

theorem Aside.step {e : Event Op.Ans Err} (he : Aside e.op) (ph : Phase) : ph.step e = ph := by
  obtain ⟨op, a⟩ := e
  cases op <;> first | exact he.elim | (cases ph <;> rfl)

theorem Aside.identityRead {e : Event Op.Ans Err} (he : Aside e.op) :
    Linking.identityRead e = none := by
  obtain ⟨op, a⟩ := e
  cases op <;> first | exact he.elim | rfl

theorem Aside.promises {op : Op} (h : Hist) (hop : Aside op) : Promises h op := by
  cases op <;> first | exact hop.elim | trivial

theorem phase_aside {l : Hist} (hl : ∀ e ∈ l, Aside e.op) : phase (l ++ h) = phase h := by
  induction l with
  | nil => rfl
  | cons e l ih =>
      rw [List.cons_append, phase_cons, (hl e List.mem_cons_self).step,
        ih fun e he => hl e (List.mem_cons_of_mem _ he)]

theorem identityOf_aside {l : Hist} (hl : ∀ e ∈ l, Aside e.op) :
    identityOf (l ++ h) = identityOf h := by
  induction l with
  | nil => rfl
  | cons e l ih =>
      rw [List.cons_append, identityOf_cons, (hl e List.mem_cons_self).identityRead,
        ih fun e he => hl e (List.mem_cons_of_mem _ he), Option.none_or]

/-- Programs aside leave a call where it stands. -/
theorem keeps_aside {p : Program α} {Q : Except Err α → Hist → Prop} (hp : p.Uses Aside)
    (hQ : ∀ r h', phase h' = phase h → identityOf h' = identityOf h → Q r h') :
    p.Along Possible Promises Q h :=
  hp.along (fun h _ hop => hop.promises h) fun r l hl =>
    hQ r (l ++ h) (phase_aside hl) (identityOf_aside hl)

theorem keeps_audit (row : AuditRow) {Q : Except Err Unit → Hist → Prop}
    (hQ : ∀ r h', phase h' = phase h → identityOf h' = identityOf h → Q r h') :
    (await (.auditLogCreate row)).Along Possible Promises Q h :=
  keeps_aside (uses_perform trivial) hQ

/-- The call is not between a merge and its record. -/
def Unmerged (h : Hist) : Prop := ∀ r, phase h ≠ .merged r

theorem Unmerged.of_phase {ph : Phase} (hphase : phase h = ph) (hne : ∀ r, ph ≠ .merged r) :
    Unmerged h := fun r hr => hne r (hphase.symm.trans hr)

theorem Unmerged.same {h' : Hist} (hu : Unmerged h) (hphase : phase h' = phase h) : Unmerged h' :=
  fun r hr => hu r (hphase.symm.trans hr)

/-- A call that ends tried to record its merge. -/
abbrev Ended {β : Type} : Except Err β → Hist → Prop := fun _ => Unmerged

/-- The message's identity is known, and no request yet. -/
def Known (r : Except Err ChatIdentity) (h : Hist) : Prop :=
  phase h = .idle ∧ ∀ i, r = .ok i → identityOf h = some i

theorem known_error {e : Err} (hidle : phase h = .idle) : Known (.error e) h := ⟨hidle, nofun⟩

theorem known_ok {identity : ChatIdentity} (hidle : phase h = .idle)
    (hid : identityOf h = some identity) : Known (.ok identity) h := by
  refine ⟨hidle, ?_⟩
  rintro i ⟨⟩
  exact hid

/-- Whoever lost the race for an account looks the winner up. -/
theorem winner_keeps (p : ChatPlatform) (u : String) (e : Err) (hidle : phase h = .idle) :
    (if e = uniqueViolation then do
        match ← await (.chatIdentityFindByAccount p u) with
        | some winner => pure winner
        | none => Prog.throw e
      else Prog.throw e : Program ChatIdentity).Along Possible Promises Known h := by
  split
  · rw [along_perform_bind]
    refine ⟨hidle, fun e _ => known_error (by simp [hidle]), fun winner _ => ?_⟩
    cases winner with
    | some winner => exact known_ok (by simp [hidle]) rfl
    | none => exact known_error (by simp [hidle])
  · exact known_error hidle

theorem resolveOrCreate_keeps (p : ChatPlatform) (u : String) (d : Option String)
    (hidle : phase h = .idle) :
    (resolveOrCreate env p u d).Along Possible Promises Known h := by
  unfold resolveOrCreate
  rw [along_perform_bind]
  refine ⟨hidle, fun e _ => known_error (by simp [hidle]), fun found _ => ?_⟩
  cases found with
  | some existing => exact known_ok (by simp [hidle]) rfl
  | none =>
      dsimp only
      rw [along_perform_bind]
      refine ⟨trivial, fun e _ => known_error (by simp [hidle]), fun authUserId _ => ?_⟩
      rw [along_tryCatch, along_perform_bind]
      refine ⟨⟨by simp [hidle], rfl⟩,
        fun e _ => winner_keeps p u e (by simp [hidle]), fun identity _ => ?_⟩
      rw [along_bind]
      refine keeps_audit _ fun r h₂ hphase hid => ?_
      have hidle₂ : phase h₂ = .idle := by rw [hphase]; simp [hidle]
      cases r with
      | error e => exact winner_keeps p u e hidle₂
      | ok _ => exact known_ok hidle₂ hid

theorem mint_keeps (targetUserId : Uuid) (hidle : phase h = .idle) :
    (mint env targetUserId).Along Possible Promises Ended h := by
  unfold mint
  rw [along_perform_bind]
  refine ⟨trivial, fun _ _ => by simp [Unmerged, hidle], fun resolvedAt _ => ?_⟩
  rw [along_perform_bind]
  refine ⟨by simp [Promises, hidle], fun _ _ => by simp [Unmerged, hidle], fun count _ => ?_⟩
  rw [along_perform_bind]
  refine ⟨trivial, fun _ _ => by simp [Unmerged, hidle], fun code _ => ?_⟩
  rw [along_perform_bind]
  refine ⟨trivial, fun _ _ => by simp [Unmerged, hidle], fun now _ => ?_⟩
  rw [along_perform_bind]
  refine ⟨by simp [Promises, hidle], fun _ _ => by simp [Unmerged, hidle], fun request _ => ?_⟩
  rw [along_bind]
  refine keeps_audit _ fun r h' hphase _ => ?_
  have hended : Unmerged h' := by simp [Unmerged, hphase, hidle]
  cases r <;> exact hended

section Consume

variable {identity : ChatIdentity} {r : ChatLinkRequest}

/-- The clock is read, and the outcome recorded. -/
theorem consumeAs_keeps (status : ChatLinkRequestStatus) (reason : Option MergeCollisionKind)
    (hid : identityOf h = some identity)
    (hphase : phase h = .checked r ∧ status ≠ .pending ∨ phase h = .merged r ∧ status = .completed)
    (hne : status = .pendingReview → identity.userId ≠ r.targetUserId)
    {Q : Except Err Unit → Hist → Prop}
    (hQ : ∀ e h', (∀ kind, e ≠ .linkMergeCollision kind) → Unmerged h' →
      Q (.error e) h')
    (hok : ∀ h', Unmerged h' → Q (.ok ()) h') :
    (consumeAs identity r.id status reason).Along Possible Promises Q h := by
  unfold consumeAs
  rw [along_perform_bind]
  refine ⟨trivial, fun e he => he.elim, fun now _ => ?_⟩
  have hsame : phase (⟨.now, .ok now⟩ :: h) = phase h := by
    rcases hphase with ⟨hphase, -⟩ | ⟨hphase, -⟩ <;> simp [hphase]
  refine (along_perform _ _).mpr ⟨⟨r, identity, rfl, by rwa [hsame], hne,
    by rw [identityOf_cons]; exact hid, rfl, rfl, List.mem_cons_self⟩,
    fun e he => hQ e _ (fun kind hkind => ?_) fun q => ?_, fun _ _ => hok _ fun q => ?_⟩
  · rw [hkind] at he
    exact he
  · rw [phase_cons, hsame]
    rcases hphase with ⟨hphase, -⟩ | ⟨hphase, -⟩ <;> simp [hphase]
  · rw [phase_cons, hsame]
    rcases hphase with ⟨hphase, -⟩ | ⟨hphase, -⟩ <;> simp [hphase]

theorem rejectCode_keeps (reason : String) (hu : Unmerged h) :
    (rejectCode identity r reason).Along Possible Promises Ended h := by
  have hsame : ∀ a, Unmerged (⟨.linkRequestUpdate r.id .countAttempt, a⟩ :: h) := fun a =>
    hu.same (by simp)
  unfold rejectCode
  rw [along_perform_bind]
  refine ⟨trivial, fun _ _ => hsame _, fun _ _ => ?_⟩
  rw [along_bind]
  refine keeps_audit _ fun r h' hphase _ => ?_
  have hended := (hsame _).same hphase
  cases r <;> exact hended

theorem park_keeps (reason : MergeCollisionKind) (hid : identityOf h = some identity)
    (hphase : phase h = .checked r) (hne : identity.userId ≠ r.targetUserId) :
    (park identity r.id reason).Along Possible Promises Ended h := by
  unfold park
  rw [along_bind]
  exact consumeAs_keeps _ _ hid (.inl ⟨hphase, by decide⟩) (fun _ => hne) (fun _ _ _ hu => hu)
    fun _ hu => hu

theorem mergeAndConsume_keeps (hid : identityOf h = some identity) (hphase : phase h = .checked r)
    (hne : identity.userId ≠ r.targetUserId) :
    (mergeAndConsume identity r).Along Possible Promises Ended h := by
  unfold mergeAndConsume
  rw [along_tryCatch, along_perform_bind]
  refine ⟨⟨r, rfl, .inl ⟨hphase, ⟨identity, hid, rfl⟩, hne⟩⟩, fun e _ => ?_, fun report _ => ?_⟩
  · have hchecked : Unmerged (⟨.mergeAccounts identity.userId r.targetUserId {}, .error e⟩ :: h) := by
      simp [Unmerged, hphase]
    rw [rescue_error]
    split
    · exact hchecked
    · exact park_keeps _ (by rw [identityOf_cons]; exact hid) (by simp [hphase]) hne
    · exact hchecked
  · rw [along_bind]
    refine consumeAs_keeps _ _ (by rw [identityOf_cons]; exact hid)
      (.inr ⟨by simp [hphase], rfl⟩) nofun (fun e h' hno hu => ?_) fun _ hu => hu
    rw [then_error, rescue_error]
    split
    · exact hu
    · exact absurd rfl (hno _)
    · exact hu

theorem checkCollision_aside (sourceUserId targetUserId : Uuid) :
    (checkCollision sourceUserId targetUserId).Uses Aside := by
  unfold checkCollision
  refine uses_bind (uses_perform trivial) fun _ => ?_
  refine uses_bind (uses_perform trivial) fun _ => ?_
  split
  · exact uses_done _
  · refine uses_bind (uses_perform trivial) fun _ => ?_
    split
    · exact uses_done _
    · exact uses_bind (uses_perform trivial) fun _ => uses_done _

theorem consume_keeps (rawCode : String) (hid : identityOf h = some identity)
    (hidle : phase h = .idle) :
    (consume env identity rawCode).Along Possible Promises Ended h := by
  unfold consume
  rw [along_perform_bind]
  refine ⟨⟨hidle, identity, hid⟩, fun _ _ => by simp [Unmerged, hidle], fun found _ => ?_⟩
  cases found with
  | none =>
      rw [Prog.pure_eq, along_done]
      simp [Unmerged, hidle]
  | some request =>
      dsimp only
      split
      · rename_i hclosed
        exact rejectCode_keeps _ (by simp [Unmerged, hidle, hclosed])
      · rename_i hpending
        have htyped : phase (⟨.linkRequestFindByHash (env.hashLinkCode (normalizeLinkCode env rawCode)),
            .ok (some request)⟩ :: h) = .typed request := by
          simp [hidle, not_not.mp hpending]
        rw [along_perform_bind]
        refine ⟨trivial, fun _ he => he.elim, fun now _ => ?_⟩
        split
        · rename_i hexpired
          refine rejectCode_keeps _ fun q => ?_
          rw [phase_cons, htyped]
          simp [Int.not_lt.mpr hexpired]
        · rename_i hopen
          have hphase : phase (⟨.now, .ok now⟩ :: ⟨.linkRequestFindByHash
              (env.hashLinkCode (normalizeLinkCode env rawCode)), .ok (some request)⟩ :: h) =
              .checked request := by
            rw [phase_cons, htyped]
            simp [Int.not_le.mp hopen]
          have hid' : identityOf (⟨.now, .ok now⟩ :: ⟨.linkRequestFindByHash
              (env.hashLinkCode (normalizeLinkCode env rawCode)), .ok (some request)⟩ :: h) =
              some identity := by
            rw [identityOf_cons, identityOf_cons]
            exact hid
          generalize (⟨.now, .ok now⟩ :: ⟨.linkRequestFindByHash
              (env.hashLinkCode (normalizeLinkCode env rawCode)), .ok (some request)⟩ :: h : Hist) =
              h₁ at hphase hid' ⊢
          have hchecked : ∀ {h'}, phase h' = phase h₁ → Unmerged h' := fun hsame =>
            Unmerged.of_phase (hsame.trans hphase) (by simp)
          split
          · exact rejectCode_keeps _ (hchecked rfl)
          · split
            · rw [along_bind]
              exact consumeAs_keeps .completed none hid' (.inl ⟨hphase, by decide⟩) nofun
                (fun _ _ _ hu => hu) fun _ hu => hu
            · rename_i hne
              rw [along_perform_bind]
              refine ⟨trivial, fun _ _ => hchecked (by simp [hphase]), fun inFlight _ => ?_⟩
              split
              · exact hchecked (by simp [hphase])
              · rw [along_bind]
                refine keeps_aside (checkCollision_aside _ _) fun collision h₂ hphase₂ hid₂ => ?_
                rw [phase_cons, hphase] at hphase₂
                rw [identityOf_cons] at hid₂
                cases collision with
                | error e => exact Unmerged.of_phase hphase₂ (by simp)
                | ok collision =>
                    cases collision with
                    | some kind => exact park_keeps kind (hid₂.trans hid') hphase₂ hne
                    | none => exact mergeAndConsume_keeps (hid₂.trans hid') hphase₂ hne

end Consume

theorem resolve_keeps (input : ResolveInput) (hidle : phase h = .idle) :
    (resolve input).Along Possible Promises Ended h := by
  unfold resolve
  rw [along_perform_bind]
  refine ⟨hidle, fun _ _ => by simp [Unmerged, hidle], fun found hfound => ?_⟩
  cases found with
  | none =>
      rw [along_throw]
      simp [Unmerged, hidle]
  | some request =>
      replace hfound : request.id = input.id := hfound
      dsimp only
      split
      · rename_i hclosed
        rw [along_throw]
        simp [Unmerged, hidle, hclosed]
      · rename_i hreview
        have hphase : phase (⟨.linkRequestFindUnique input.id, .ok (some request)⟩ :: h) =
            .review request := by
          simp [hidle, not_not.mp hreview]
        generalize (⟨.linkRequestFindUnique input.id, .ok (some request)⟩ :: h : Hist) = h₁
          at hphase ⊢
        have hreviewed : Unmerged h₁ := Unmerged.of_phase hphase (by simp)
        split
        · rename_i sourceUserId chatIdentityId hsource hidentity
          split
          · rw [along_perform_bind]
            refine ⟨trivial, fun _ he => he.elim, fun now _ => ?_⟩
            rw [along_perform_bind]
            refine ⟨⟨request, by simp [hphase], hfound⟩, fun _ _ => by simp [Unmerged, hphase],
              fun _ _ => ?_⟩
            rw [along_bind]
            refine keeps_audit _ fun r h' hphase' _ => ?_
            have hended : Unmerged h' := by simp [Unmerged, hphase', hphase]
            cases r <;> exact hended
          · split
            · exact hreviewed
            · split
              · exact hreviewed
              · rw [along_perform_bind]
                refine ⟨⟨request, hphase, hfound⟩, fun _ _ => by simp [Unmerged, hphase],
                  fun _ _ => ?_⟩
                rw [along_perform_bind]
                refine ⟨trivial, fun _ _ => by simp [Unmerged, hphase], fun identity _ => ?_⟩
                rw [along_perform_bind]
                refine ⟨⟨LinkRequestUpdate.promote.apply request, rfl,
                  .inr ⟨by simp [hphase], hsource⟩⟩, fun _ _ => by simp [Unmerged, hphase],
                  fun report _ => ?_⟩
                rw [along_perform_bind]
                refine ⟨trivial, fun _ he => he.elim, fun now _ => ?_⟩
                rw [along_perform_bind]
                refine ⟨⟨LinkRequestUpdate.promote.apply request, by simp [hphase],
                  hfound⟩, fun _ _ => by simp [Unmerged, hphase], fun _ _ => ?_⟩
                rw [along_bind]
                refine keeps_audit _ fun r h' hphase' _ => ?_
                have hended : Unmerged h' := by simp [Unmerged, hphase', hphase]
                cases r <;> exact hended
        · exact hreviewed

/-- **Every call keeps its promises.** -/
theorem code_promises (env : Env) (c : Call) :
    (code env c).Along Possible Promises Ended [] := by
  cases c with
  | message p u d connect =>
      refine (along_bind _ _).mpr ((resolveOrCreate_keeps p u d rfl).mono fun r h hknown => ?_)
      cases r with
      | error e => exact Unmerged.of_phase hknown.1 (by simp)
      | ok identity =>
          cases connect with
          | none => exact Unmerged.of_phase hknown.1 (by simp)
          | some rawCode =>
              refine (along_bind _ _).mpr
                ((consume_keeps rawCode (hknown.2 _ rfl) hknown.1).mono fun r h hu => ?_)
              cases r <;> exact hu
  | mint targetUserId =>
      refine (along_bind _ _).mpr ((mint_keeps targetUserId rfl).mono fun r h hu => ?_)
      cases r <;> exact hu
  | resolve input =>
      refine (along_bind _ _).mpr ((resolve_keeps input rfl).mono fun r h hu => ?_)
      cases r <;> exact hu

/-- What a call in progress has seen before its next operation. -/
theorem promises_of_reaches {x : Config (service env)} (hx : Reachable env x)
    {p : Process (service env)} (hp : p ∈ x.procs) {op : Op}
    {k : Except Err op.Ans → Program Reply} (hk : p.prog = some (.call op k)) :
    Promises p.hist op :=
  (Reaches.along (J := fun _ => Promises) (R := fun _ => Ended) possible_of_exec
    (fun {c} {_} _ => code_promises env c) hx p hp _ hk).1

/-- A call that ended tried to record its merge. -/
theorem unmerged_of_reaches {x : Config (service env)} (hx : Reachable env x)
    {p : Process (service env)} (hp : p ∈ x.procs) {r : Except Err Reply}
    (hend : p.prog = some (.done r)) : Unmerged p.hist :=
  Reaches.along (J := fun _ => Promises) (R := fun _ => Ended) possible_of_exec
    (fun {c} {_} _ => code_promises env c) hx p hp _ hend

end Meduman.Linking
