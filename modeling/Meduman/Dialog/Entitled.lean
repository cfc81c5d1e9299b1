import Meduman.Dialog.Steps
import Meduman.Linking.Owners
import Meduman.Model.Web

/-!
# What the dialog checks before it writes

The dialog takes deliveries from sellers, confirmations from buyers and complaints from either. It files
what a chat sends with a dispute its sender may add to: the current one of a transaction of theirs, or the
one their session remembers, which it checks no further.

* `Read`, `SideRead` : what an attempt has read; that somebody buys or sells
* `Entitled` : the owner of an identity may add to a dispute
* `Signed`, `Vouched` : a line names its side; a write is backed by what was read before it
* **`processInbound_backed`** : every write of an attempt is
-/

set_option autoImplicit false

namespace Meduman.Dialog

open Effect
open Chat (ChatAdapter ChatPlatform InboundMedia ChatInboundJobData)
open Web (Side sideOf)
open Linking (ChatIdentity)

/-- What an attempt has done. -/
abbrev Hist := History Op.Ans Err

/-- The dispute a session collects evidence for. -/
def ChatSession.disputeId (s : ChatSession) : Option Uuid := s.draft.bind ChatDraft.disputeId

/-- The dispute a patch makes a session collect evidence for. -/
def SessionPatch.disputeId (d : SessionPatch) : Option Uuid :=
  (d.draft.bind id).bind ChatDraft.disputeId

/-- The row was read, as `f` finds it in what an operation answered. -/
def Read {α : Type} (f : Event Op.Ans Err → Option α) (h : Hist) (a : α) : Prop :=
  ∃ e ∈ h, f e = some a

/-- The user is on this side of the transaction, as was read. -/
def SideRead (h : Hist) (side : Side) (transactionId userId : Uuid) : Prop :=
  ∃ t, Read transactionRead h t ∧ t.id = transactionId ∧ side.holds t userId = true

/-- The owner of the identity may add to the dispute: they buy or sell, or their session remembers it. -/
structure Entitled (h : Hist) (i : ChatIdentity) (d : Dispute) : Prop where
  identity : Read identityRead h i
  dispute : Read disputeRead h d
  party : SideRead h .either d.transactionId i.userId ∨
    ∃ s, Read sessionRead h s ∧ s.chatIdentityId = i.id ∧ s.disputeId = some d.id

/-- A line that a side makes names somebody on that side, as was read. -/
def Signed (h : Hist) (e : TimelineEvent) : Prop :=
  ∀ side, sideOf e.type = some side →
    ∃ u : Uuid, e.actorId = some u.text ∧ SideRead h side e.transactionId u

/-- The write is backed by what was read before it. -/
def Vouched (h : Hist) : Op → Prop
  | .core (.commitTransition d) => Signed h d.timeline
  | .core (.disputeCreate d) => SideRead h .either d.transactionId d.openedBy
  | .chat (.evidenceCreate d) => ∃ i dispute, Entitled h i dispute ∧
      d.transactionId = dispute.transactionId ∧ d.disputeId = dispute.id ∧ d.uploadedBy = i.userId
  | .chat (.chatSessionUpdate id patch _) => ∀ disputeId, patch.disputeId = some disputeId →
      (∃ s, Read sessionRead h s ∧ s.chatIdentityId = id ∧ s.disputeId = some disputeId) ∨
      ∃ i dispute, Entitled h i dispute ∧ i.id = id ∧ dispute.id = disputeId
  | _ => True

/-- Vouched whatever was read. -/
def Harmless (op : Op) : Prop := ∀ h, Vouched h op

variable {h h' : Hist} {α β : Type}

theorem Read.suffix {f : Event Op.Ans Err → Option α} {a : α} (hr : Read f h a) (hs : h <:+ h') :
    Read f h' a := by
  obtain ⟨e, he, ha⟩ := hr
  exact ⟨e, hs.subset he, ha⟩

theorem read_cons {f : Event Op.Ans Err → Option α} {e : Event Op.Ans Err} {a : α}
    (ha : f e = some a) : Read f (e :: h) a :=
  ⟨e, List.mem_cons_self, ha⟩

theorem SideRead.suffix {side : Side} {t u : Uuid} (hp : SideRead h side t u) (hs : h <:+ h') :
    SideRead h' side t u := by
  obtain ⟨tx, hread, hid, hparty⟩ := hp
  exact ⟨tx, hread.suffix hs, hid, hparty⟩

theorem Entitled.suffix {i : ChatIdentity} {d : Dispute} (he : Entitled h i d) (hs : h <:+ h') :
    Entitled h' i d where
  identity := he.identity.suffix hs
  dispute := he.dispute.suffix hs
  party := he.party.imp (fun hp => hp.suffix hs) fun hr => by
    obtain ⟨s, hread, hown⟩ := hr
    exact ⟨s, hread.suffix hs, hown⟩

/-! ## Programs -/

/-- From here on, every write of the program is backed. -/
abbrev Backs (h : Hist) (p : Program α) : Prop := p.Along Answers Vouched (fun _ _ => True) h

theorem Uses.backs {p : Program α} (hp : p.Uses Harmless) : Backs h p :=
  hp.along (fun h _ hop => hop h) fun _ _ _ => trivial

/-- After a program whose writes are backed. -/
theorem Backs.bind {p : Program α} {f : α → Program β} (hp : Backs h p)
    (hf : ∀ a h', h <:+ h' → Backs h' (f a)) : Backs h (p >>= f) := by
  rw [Backs, along_bind]
  refine hp.extends.mono fun r h' hr => ?_
  cases r with
  | ok a => exact hf a h' hr.2
  | error e => trivial

/-- After a program that gives something. -/
theorem backs_bind {p : Program α} {f : α → Program β} {R : α → Hist → Prop}
    (hp : p.Along Answers Vouched (fun r h' => ∀ a, r = .ok a → R a h') h)
    (hf : ∀ a h', h <:+ h' → R a h' → Backs h' (f a)) : Backs h (p >>= f) := by
  rw [Backs, along_bind]
  refine hp.extends.mono fun r h' hr => ?_
  cases r with
  | ok a => exact hf a h' hr.2 (hr.1 a rfl)
  | error e => trivial

/-- With a harmless handler. -/
theorem backs_tryCatch {p : Program α} {handler : Err → Program α} (hp : Backs h p)
    (hh : ∀ e, (handler e).Uses Harmless) : Backs h (p.tryCatch handler) := by
  rw [Backs, along_tryCatch]
  refine Prog.Along.mono hp fun r h' _ => ?_
  cases r with
  | ok a => trivial
  | error e => exact Uses.backs (hh e)

/-! ## What is harmless -/

/-- The events a side makes. -/
theorem sideOf_event (event : TransactionEvent) : sideOf (timelineType event) = match event with
    | .sellerStartDelivery | .sellerMarkDelivered => some .seller
    | .buyerConfirm => some .buyer
    | .raiseDispute => some .either
    | _ => none := by
  cases event <;> simp [sideOf, timelineType]

/-- The event names its actor, who is on the side that makes it, as was read. -/
def Signs (h : Hist) (input : ApplyTransitionInput) : Prop :=
  ∀ side, sideOf (timelineType input.event) = some side →
    ∃ u : Uuid, input.actor.id = some u.text ∧ SideRead h side input.transactionId u

theorem signs_of_none {input : ApplyTransitionInput} (h' : sideOf (timelineType input.event) = none) :
    Signs h input := by
  intro side hside
  rw [h'] at hside
  cases hside

theorem Signs.suffix {input : ApplyTransitionInput} (hi : Signs h input) (hs : h <:+ h') :
    Signs h' input := by
  intro side hside
  obtain ⟨u, hu, hread⟩ := hi side hside
  exact ⟨u, hu, hread.suffix hs⟩

/-- What the transitions of a call write is backed if they sign. -/
theorem backed_of_does {c : Meduman.Call} {op : Meduman.Op}
    (hc : ∀ input, c.Applies input → Signs h input) (hd : ∀ i, c ≠ .raiseDispute i)
    (hdoes : c.Does op) : Vouched h (.core op) := by
  cases op with
  | commitTransition d =>
      obtain ⟨input, tx, context, nextState, happlies, -, rfl⟩ := hdoes
      exact hc input happlies
  | disputeCreate d =>
      obtain ⟨i, rfl, -⟩ := hdoes
      exact absurd rfl (hd i)
  | _ => trivial

theorem core_harmless {p : Meduman.Program α} {c : Meduman.Call} (hp : p.Uses c.Does)
    (hc : ∀ input, c.Applies input → sideOf (timelineType input.event) = none)
    (hd : ∀ i, c ≠ .raiseDispute i) : (core p).Uses Harmless :=
  uses_embed hp fun _ hop _ => backed_of_does (fun input hin => signs_of_none (hc input hin)) hd hop

theorem apply_harmless {input : ApplyTransitionInput}
    (hevent : sideOf (timelineType input.event) = none) : (core (apply input)).Uses Harmless := by
  refine core_harmless (c := .drive input) (apply_does rfl) (fun _ h => ?_)
    fun _ h => by cases h
  obtain rfl : _ = input := h
  exact hevent

/-- **A transition that signs** is backed. -/
theorem apply_backs {input : ApplyTransitionInput} (hsigns : Signs h input) :
    Backs h (core (apply input)) := by
  have huses : (core (apply input)).Uses fun op =>
      ∃ op', op = .core op' ∧ (Call.drive input).Does op' :=
    uses_embed (apply_does (c := .drive input) rfl) fun op hop => ⟨op, rfl, hop⟩
  refine (huses.along_from fun h' hs op hop => ?_).mono fun _ _ _ => trivial
  obtain ⟨op', rfl, hdoes⟩ := hop
  refine backed_of_does (fun input' hin => ?_) (fun _ h => by cases h) hdoes
  obtain rfl : input' = input := hin
  exact hsigns.suffix hs

theorem linking_harmless (p : Linking.Program α) : (linking p).Uses Harmless :=
  uses_embed (uses_any p) fun _ _ _ => trivial

theorem otp_harmless (p : Otp.Program α) : (otp p).Uses Harmless :=
  uses_embed (uses_any p) fun _ _ _ => trivial

theorem sellers_harmless (p : Sellers.Program α) : (sellers p).Uses Harmless :=
  uses_embed (uses_any p) fun _ _ _ => trivial

theorem now_harmless : (core (Meduman.await .now)).Uses Harmless :=
  uses_embed (A := fun op => op = .now) (uses_perform rfl) fun _ hop => hop ▸ fun _ => trivial

theorem randomUUID_harmless : (core (Meduman.await .randomUUID)).Uses Harmless :=
  uses_embed (A := fun op => op = .randomUUID) (uses_perform rfl) fun _ hop => hop ▸ fun _ => trivial

theorem enqueueRelease_harmless (id : Uuid) :
    (core (Meduman.await (.enqueueRelease id))).Uses Harmless :=
  uses_embed (A := fun op => op = .enqueueRelease id) (uses_perform rfl)
    fun _ hop => hop ▸ fun _ => trivial

/-- Moving a session on, without a dispute to collect evidence for. -/
theorem updateSession_harmless (env : Env) (id : Uuid) {patch : SessionPatch}
    (hpatch : patch.disputeId = none) : (updateSession env id patch).Uses Harmless := by
  unfold updateSession freshExpiry
  refine uses_bind (uses_bind now_harmless fun _ => trivial) fun expiresAt => ?_
  refine uses_bind (uses_perform fun h disputeId hid => ?_) fun _ => trivial
  rw [hpatch] at hid
  cases hid

theorem resetSession_harmless (env : Env) (id : Uuid) : (resetSession env id).Uses Harmless :=
  updateSession_harmless env id rfl

theorem parseUuid_harmless (text : String) : (parseUuid text).Uses Harmless := by
  unfold parseUuid
  split <;> trivial

/-! ## Steps that write nothing of a dispute -/

theorem capturePayoutAccount_harmless (env : Env) (c : Caller) (text : String) :
    (capturePayoutAccount env c text).Uses Harmless := by
  unfold capturePayoutAccount
  split
  · refine uses_tryCatch (uses_bind (sellers_harmless _) fun profile => ?_)
      fun _ => ?_
    · exact uses_bind (updateSession_harmless env _ rfl) fun _ => trivial
    · exact uses_bind (updateSession_harmless env _ rfl) fun _ => trivial
  · trivial

theorem captureDescriptionAndCreate_harmless (env : Env) (c : Caller) (session : ChatSession)
    (text : String) : (captureDescriptionAndCreate env c session text).Uses Harmless := by
  unfold captureDescriptionAndCreate
  split
  · exact uses_bind (resetSession_harmless env _) fun _ => trivial
  · rename_i input hdraft
    have hcreate : (core (createDraft input)).Uses Harmless :=
      core_harmless (createDraft_does (.inl ⟨.chat c.userId (readDraft session).toChatDraft text
        (originOf c.identity.platform), rfl⟩) input) (fun _ h => h.elim) fun _ h => by cases h
    refine uses_bind hcreate fun tx => ?_
    refine uses_bind (apply_harmless (by simp [publication, sideOf_event])) fun _ => ?_
    refine uses_bind (updateSession_harmless env _ rfl) fun _ => ?_
    exact uses_bind (sellers_harmless _) fun _ => trivial

/-- A read of the core. -/
theorem find_harmless (key : TransactionKey) :
    (core (Meduman.await (.transactionFindUnique key))).Uses Harmless :=
  uses_embed (A := fun op => op = .transactionFindUnique key) (uses_perform rfl)
    fun _ hop => hop ▸ fun _ => trivial

theorem startPayment_harmless (env : Env) (c : Caller) (linkCode : String) :
    (startPayment env c linkCode).Uses Harmless := by
  unfold startPayment
  split
  · trivial
  · refine uses_bind (find_harmless _) fun found => ?_
    cases found with
    | none => trivial
    | some tx =>
        dsimp only
        split
        · trivial
        · refine uses_tryCatch (uses_bind ?_ fun account => ?_) fun _ => trivial
          · refine core_harmless (initializeVirtualAccount_does tx.id c.userId c.email)
              (fun input happlies => ?_) fun _ h => by cases h
            obtain ⟨id, rfl⟩ := happlies
            simp [checkout, sideOf_event]
          · exact uses_bind (updateSession_harmless env _ rfl) fun _ => trivial

theorem showStatus_harmless (c : Caller) (session : ChatSession) (arg : String) :
    (showStatus c session arg).Uses Harmless := by
  unfold showStatus
  split
  · trivial
  · refine uses_bind (parseUuid_harmless _) fun id => uses_bind (find_harmless _) fun found => ?_
    cases found with
    | none => trivial
    | some tx =>
        dsimp only
        split <;> trivial

theorem connectAccount_harmless (env : Env) (c : Caller) (arg : String) :
    (connectAccount env c arg).Uses Harmless := by
  unfold connectAccount
  split
  · trivial
  · exact uses_bind (linking_harmless _) fun _ => trivial

/-! ## Sessions -/

/-- Who is served, and the session their message belongs to, as they were read. -/
structure Known (h : Hist) (c : Caller) (session : ChatSession) : Prop where
  identity : Read identityRead h c.identity
  conversation : Read sessionRead h session
  own : session.chatIdentityId = c.identity.id

variable {env : Env} {c : Caller} {session : ChatSession}

theorem Known.suffix (hk : Known h c session) (hs : h <:+ h') : Known h' c session where
  identity := hk.identity.suffix hs
  conversation := hk.conversation.suffix hs
  own := hk.own

theorem readDraft_disputeId (s : ChatSession) : (readDraft s).disputeId = s.disputeId := by
  unfold readDraft ChatSession.disputeId
  cases s.draft <;> rfl

/-- When a session that is touched now expires. -/
theorem freshExpiry_harmless (env : Env) : (freshExpiry env).Uses Harmless :=
  uses_bind now_harmless fun _ => trivial

/-- A session update that is backed. -/
theorem updateSession_backs {id : Uuid} {patch : SessionPatch}
    (hpatch : ∀ h', h <:+ h' → ∀ t, Vouched h' (.chat (.chatSessionUpdate id patch t))) :
    Backs h (updateSession env id patch) := by
  refine Backs.bind (Uses.backs (freshExpiry_harmless env)) fun expiresAt h' hs => ?_
  rw [Backs, along_perform_bind]
  exact ⟨hpatch h' hs expiresAt, fun _ _ => trivial, fun _ _ => trivial⟩

/-- Going on with a draft keeps the dispute the session remembers. -/
theorem goOn_backs (hk : Known h c session) (step : ChatStep) (draft : Meduman.ChatDraft) :
    Backs h (updateSession env c.identity.id
      { step := some step, draft := some (some { readDraft session with toChatDraft := draft }) }) := by
  refine updateSession_backs fun h' hs t disputeId hid => .inl ?_
  refine ⟨session, hk.conversation.suffix hs, hk.own, ?_⟩
  rw [← readDraft_disputeId]
  exact hid

theorem captureTitle_backs (hk : Known h c session) (text : String) :
    Backs h (captureTitle env c session text) := by
  unfold captureTitle
  split
  · trivial
  · exact (goOn_backs hk _ _).bind fun _ _ _ => trivial

theorem captureAmount_backs (hk : Known h c session) (text : String) :
    Backs h (captureAmount env c session text) := by
  unfold captureAmount
  split
  · trivial
  · exact (goOn_backs hk _ _).bind fun _ _ _ => trivial

/-- Remembering a dispute the caller may add to. -/
theorem remember_backs {d : Dispute} (he : Entitled h c.identity d) {id : Uuid}
    (hid : id = c.identity.id) {patch : SessionPatch} (hpatch : patch.disputeId = some d.id) :
    Backs h (updateSession env id patch) := by
  refine updateSession_backs fun h' hs t disputeId hd => .inr ?_
  refine ⟨c.identity, d, he.suffix hs, hid.symm, ?_⟩
  rw [hpatch] at hd
  exact Option.some.inj hd

/-! ## Deliveries -/

/-- A transaction that is looked up is read. -/
theorem find_reads (key : TransactionKey) :
    (core (Meduman.await (.transactionFindUnique key))).Along Answers Vouched
      (fun r h' => ∀ a, r = .ok a → ∀ tx, a = some tx → Read transactionRead h' tx) h := by
  refine ⟨trivial, fun a _ => ?_⟩
  cases a with
  | error e => exact fun _ h => by cases h
  | ok found =>
      rintro _ ⟨⟩ tx rfl
      exact read_cons rfl

/-- The transaction a request is about. -/
theorem getById_reads (id : Uuid) : (core (getById id)).Along Answers Vouched
    (fun r h' => ∀ tx, r = .ok tx → tx.id = id ∧ Read transactionRead h' tx) h := by
  refine ⟨trivial, fun a ha => ?_⟩
  cases a with
  | error e => exact fun _ htx => by cases htx
  | ok found =>
      cases found with
      | none => exact fun _ htx => by cases htx
      | some tx =>
          rintro _ ⟨⟩
          exact ⟨ha, read_cons rfl⟩

theorem confirmation_signs {id buyerId : Uuid} (reason : Option String)
    (hbuyer : SideRead h .buyer id buyerId) : Signs h (confirmation id buyerId reason) := by
  intro side hside
  obtain rfl : side = .buyer := by
    rw [sideOf_event] at hside
    exact (Option.some.inj hside).symm
  exact ⟨buyerId, rfl, hbuyer⟩

/-- The confirmation of the buyer that was read. -/
theorem confirm_backs (id buyerId : Uuid) (reason : Option String) :
    (core (confirm id buyerId reason)).Along Answers Vouched
      (fun r h' => ∀ a, r = .ok a → SideRead h' .buyer id buyerId) h := by
  unfold confirm
  rw [core, embed_bind, along_bind]
  refine (getById_reads id).mono fun r h₁ hr => ?_
  cases r with
  | error e => exact fun _ ha => by cases ha
  | ok tx =>
      obtain ⟨rfl, hread⟩ := hr tx rfl
      rw [then_ok]
      split
      · exact fun _ ha => by cases ha
      · rename_i hbuyer
        have hside : SideRead h₁ .buyer tx.id buyerId :=
          ⟨tx, hread, rfl, beq_iff_eq.mpr (not_not.mp hbuyer)⟩
        rw [embed_bind, along_bind]
        refine (apply_backs (confirmation_signs reason hside)).extends.mono fun r h₂ hs₂ => ?_
        cases r with
        | error e => exact fun _ ha => by cases ha
        | ok updated =>
            refine ⟨trivial, fun a _ => ?_⟩
            cases a with
            | error e => exact fun _ ha => by cases ha
            | ok _ =>
                rintro _ ⟨⟩
                exact (hside.suffix hs₂.2).suffix (List.suffix_cons _ _)

/-- A seller's event signs, if the transaction that was read is theirs. -/
theorem delivery_signs {tx : Transaction} (hread : Read transactionRead h tx)
    (hseller : tx.sellerId = c.userId) {event : TransactionEvent}
    (hevent : sideOf (timelineType event) = some .seller) : Signs h (delivery c tx.id event) := by
  intro side hside
  obtain rfl : side = .seller := (Option.some.inj (hevent.symm.trans hside)).symm
  exact ⟨c.userId, rfl, tx, hread, rfl, beq_iff_eq.mpr hseller⟩

theorem startDelivery_backs {tx : Transaction} (hread : Read transactionRead h tx)
    (hseller : tx.sellerId = c.userId) : Backs h (startDelivery c tx) := by
  unfold startDelivery
  split
  · exact (apply_backs (delivery_signs hread hseller (sideOf_event _))).bind fun _ _ _ => trivial
  · trivial

theorem markDelivered_backs (env : Env) (c : Caller) (session : ChatSession) (arg : String) :
    Backs h (markDelivered env c session arg) := by
  unfold markDelivered
  split
  · trivial
  · refine (Uses.backs (parseUuid_harmless _)).bind fun id h₁ _ => ?_
    refine backs_bind (find_reads _) fun found h₂ _ hread => ?_
    cases found with
    | none => trivial
    | some tx =>
        dsimp only
        split
        · trivial
        · rename_i hseller
          have hseller := not_not.mp hseller
          have hread := hread tx rfl
          refine backs_tryCatch ?_ fun e => ?_
          · refine (startDelivery_backs hread hseller).bind fun _ h₃ hs₃ => ?_
            have hsigns : Signs h₃ (delivery c tx.id .sellerMarkDelivered) :=
              delivery_signs (hread.suffix hs₃) hseller (sideOf_event _)
            refine (apply_backs hsigns).bind fun _ _ _ => ?_
            exact Uses.backs (uses_bind (otp_harmless _) fun _ => trivial)
          · split <;> trivial

/-- A confirmation signs, if the transaction that was read is the caller's. -/
theorem confirmDelivery_backs {tx : Transaction} (hread : Read transactionRead h tx)
    (hbuyer : tx.buyerId = some c.userId) : Backs h (confirmDelivery c tx) := by
  unfold confirmDelivery
  have hside : SideRead h .buyer tx.id c.userId := ⟨tx, hread, rfl, beq_iff_eq.mpr hbuyer⟩
  refine Backs.bind (apply_backs (confirmation_signs none hside)) fun _ _ _ => ?_
  exact Uses.backs (uses_bind (enqueueRelease_harmless tx.id) fun _ => trivial)

theorem tryConfirmOtp_backs (env : Env) (c : Caller) (code : String) :
    Backs h (tryConfirmOtp env c code) := by
  unfold tryConfirmOtp
  refine backs_bind (R := fun found h' => ∀ tx, found = some tx →
    Read transactionRead h' tx ∧ tx.buyerId = some c.userId) ⟨trivial, fun a ha => ?_⟩
    fun found h₁ _ hread => ?_
  · cases a with
    | error e => exact fun _ h => by cases h
    | ok found =>
        rintro _ ⟨⟩ tx rfl
        exact ⟨read_cons rfl, ha⟩
  · cases found with
    | none => trivial
    | some tx =>
        obtain ⟨hread, hbuyer⟩ := hread tx rfl
        refine Backs.bind (Uses.backs (uses_tryCatch (uses_bind (otp_harmless _) fun _ => trivial)
          fun e => ?_)) fun refused h₂ hs₂ => ?_
        · split <;> trivial
        · split
          · trivial
          · exact confirmDelivery_backs (hread.suffix hs₂) hbuyer

/-! ## Disputes -/

/-- A party's transaction, as it was read. -/
theorem partyRead_of_read {tx : Transaction} (hread : Read transactionRead h tx)
    (hparty : isParty c tx = true) : SideRead h .either tx.id c.userId :=
  ⟨tx, hread, rfl, hparty⟩

/-- **What raising a dispute writes** is backed if its transaction is a party's; the dispute is read. -/
theorem raise_backs (input : RaiseDisputeInput)
    (hparty : SideRead h .either input.transactionId input.openedBy) :
    (core (raise input)).Along Answers Vouched (fun r h' => ∀ d, r = .ok d →
      Read disputeRead h' d ∧ d.transactionId = input.transactionId) h := by
  unfold raise
  rw [core, embed_bind, along_bind]
  have hsigns : Signs h input.event := by
    intro side hside
    obtain rfl : side = .either := by
      rw [sideOf_event] at hside
      exact (Option.some.inj hside).symm
    exact ⟨input.openedBy, rfl, hparty⟩
  refine (apply_backs hsigns).extends.mono fun r h' hs => ?_
  cases r with
  | error e => exact fun d hd => by cases hd
  | ok v =>
      refine ⟨hparty.suffix hs.2, fun a ha => ?_⟩
      cases a with
      | error e => exact fun d hd => by cases hd
      | ok d =>
          rintro _ ⟨⟩
          exact ⟨read_cons rfl, ha⟩

theorem raiseDispute_backs (hk : Known h c session) (arg : String) :
    Backs h (raiseDispute env c session arg) := by
  unfold raiseDispute
  split
  · trivial
  · rename_i txId htx
    refine backs_bind (find_reads _) fun found h₁ hs hread => ?_
    cases found with
    | none => trivial
    | some tx =>
        dsimp only
        split
        · trivial
        · rename_i hparty
          have hparty := partyRead_of_read (hread tx rfl) (by simpa using hparty)
          refine backs_tryCatch ?_ fun _ => trivial
          refine backs_bind (raise_backs (complaint c tx arg) hparty) fun d h₂ hs' hd => ?_
          have hk' := hk.suffix (hs.trans hs')
          have hentitled : Entitled h₂ c.identity d :=
            ⟨hk'.identity, hd.1, .inl (hd.2.symm ▸ hparty.suffix hs')⟩
          exact (remember_backs hentitled hk.own rfl).bind fun _ _ _ => trivial

/-! ## Attachments -/

/-- The dispute that is found, if any, is one the caller may add to. -/
abbrev Finds (c : Caller) (p : Program (Option Dispute)) (h : Hist) : Prop :=
  p.Along Answers Vouched (fun r h' => ∀ a, r = .ok a → ∀ d, a = some d → Entitled h' c.identity d) h

theorem findCurrentDispute_finds (hk : Known h c session) :
    Finds c (findCurrentDispute c session) h := by
  unfold findCurrentDispute
  split
  · rintro _ ⟨⟩ d hd
    cases hd
  · rename_i txId htx
    refine ⟨trivial, fun a _ => ?_⟩
    cases a with
    | error e => exact fun _ h => by cases h
    | ok found =>
        cases found with
        | none =>
            rintro _ ⟨⟩ d hd
            cases hd
        | some tx =>
            show Finds c (if !isParty c tx then _ else _) _
            split
            · rintro _ ⟨⟩ d hd
              cases hd
            · rename_i hparty
              refine ⟨trivial, fun a ha => ?_⟩
              cases a with
              | error e => exact fun _ h => by cases h
              | ok found =>
                  rintro _ ⟨⟩ d rfl
                  have hparty := partyRead_of_read (c := c)
                    (h := [⟨.chat (.disputeFindFirst tx.id openDisputeStatuses), .ok (some d)⟩,
                      ⟨.core (.transactionFindUnique (.id txId)), .ok (some tx)⟩] ++ h)
                    ⟨_, List.mem_cons_of_mem _ List.mem_cons_self, rfl⟩ (by simpa using hparty)
                  replace ha : d.transactionId = tx.id := ha
                  exact ⟨(hk.suffix (List.suffix_append [_, _] h)).identity, read_cons rfl,
                    .inl (ha ▸ hparty)⟩

theorem findEvidenceDispute_finds (hk : Known h c session) :
    Finds c (findEvidenceDispute c session) h := by
  unfold findEvidenceDispute
  split
  · exact findCurrentDispute_finds hk
  · rename_i disputeId hdraft
    rw [readDraft_disputeId] at hdraft
    refine ⟨trivial, fun a ha => ?_⟩
    cases a with
    | error e => exact fun _ h => by cases h
    | ok found =>
        have hk' := hk.suffix (List.suffix_cons
          (⟨.core (.disputeFindUnique disputeId), .ok found⟩ : Event Op.Ans Err) h)
        cases found with
        | none => exact findCurrentDispute_finds hk'
        | some d =>
            show Finds c (if openDisputeStatuses.contains d.status then _ else _) _
            split
            · rintro _ ⟨⟩ d' hd'
              cases hd'
              obtain rfl : d.id = disputeId := ha
              exact ⟨hk'.identity, read_cons rfl, .inr ⟨session, hk'.conversation, hk.own, hdraft⟩⟩
            · exact findCurrentDispute_finds hk'

/-- An attachment is stored with the dispute it belongs to. -/
theorem capture_backs {ctx : CaptureEvidenceContext} {d : Dispute} (he : Entitled h c.identity d)
    (hctx : ctx = ⟨d.transactionId, d.id, c.userId⟩) (media : InboundMedia) :
    Backs h (capture media ctx) := by
  unfold capture
  refine Backs.bind ⟨trivial, fun _ _ => trivial⟩ fun file h₁ hs₁ => ?_
  split
  · trivial
  · refine Backs.bind ⟨trivial, fun a _ => by cases a <;> trivial⟩ fun uuid h₂ hs₂ => ?_
    refine Backs.bind ⟨trivial, fun _ _ => trivial⟩ fun _ h₃ hs₃ => ?_
    refine Backs.bind ⟨?_, fun _ _ => trivial⟩ fun _ _ _ => trivial
    subst hctx
    exact ⟨c.identity, d, he.suffix (hs₁.trans (hs₂.trans hs₃)), rfl, rfl, rfl⟩

theorem captureAll_backs {ctx : CaptureEvidenceContext} {d : Dispute}
    (hctx : ctx = ⟨d.transactionId, d.id, c.userId⟩) (media : List InboundMedia) (stored : Nat)
    (he : Entitled h c.identity d) : Backs h (captureAll ctx media stored) := by
  induction media generalizing h stored with
  | nil => trivial
  | cons m rest ih =>
      unfold captureAll
      refine Backs.bind (backs_tryCatch ?_ fun e => ?_) fun failure h' hs => ?_
      · exact (capture_backs he hctx m).bind fun _ _ _ => trivial
      · split <;> trivial
      · cases failure with
        | some reply => trivial
        | none => exact ih (stored + 1) (he.suffix hs)

theorem handleMedia_backs (hk : Known h c session) (adapter : ChatAdapter)
    (media : List InboundMedia) : Backs h (handleMedia env adapter c session media) := by
  unfold handleMedia
  split
  · trivial
  · refine backs_bind (findEvidenceDispute_finds hk) fun found h₁ hs hentitled => ?_
    cases found with
    | none => trivial
    | some d =>
        have he := hentitled d rfl
        refine (captureAll_backs rfl media 0 he).bind fun r h₂ hs' => ?_
        cases r with
        | inl reply => trivial
        | inr stored => exact (remember_backs (he.suffix hs') rfl rfl).bind fun _ _ _ => trivial

/-! ## The step machine -/

theorem handleCommand_backs (hk : Known h c session) (text : String) :
    Backs h (handleCommand env c session text) := by
  unfold handleCommand
  dsimp only
  split
  · trivial
  · trivial
  · exact Uses.backs (uses_bind (resetSession_harmless env _) fun _ => trivial)
  · exact Uses.backs (uses_bind (updateSession_harmless env _ rfl) fun _ => trivial)
  · exact Uses.backs (uses_bind (updateSession_harmless env _ rfl) fun _ => trivial)
  · exact Uses.backs (startPayment_harmless env c _)
  · exact markDelivered_backs env c session _
  · exact raiseDispute_backs hk _
  · exact Uses.backs (connectAccount_harmless env c _)
  · exact Uses.backs (showStatus_harmless c session _)
  · trivial

theorem handleStep_backs (hk : Known h c session) (text : String) :
    Backs h (handleStep env c session text) := by
  unfold handleStep
  split
  · exact captureTitle_backs hk text
  · exact captureAmount_backs hk text
  · exact Uses.backs (captureDescriptionAndCreate_harmless env c session text)
  · exact Uses.backs (capturePayoutAccount_harmless env c text)
  · exact Uses.backs (uses_bind (updateSession_harmless env _ rfl) fun _ => trivial)
  · split
    · exact tryConfirmOtp_backs env c text
    · trivial
  · split
    · exact tryConfirmOtp_backs env c text
    · trivial

theorem handle_backs (hk : Known h c session) (adapter : ChatAdapter) (job : ChatInboundJobData) :
    Backs h (handle env adapter c session job) := by
  unfold handle
  dsimp only
  generalize saidIn job = text
  by_cases hmedia : (!job.media.isEmpty && !isCommand text) = true
  · rw [if_pos hmedia]
    exact handleMedia_backs hk adapter job.media
  · rw [if_neg hmedia]
    by_cases hcommand : isCommand text = true
    · rw [if_pos hcommand]
      exact handleCommand_backs hk text
    · rw [if_neg hcommand]
      exact handleStep_backs hk text

/-! ## The worker -/

/-- What the linking service sees of an attempt. -/
def linkingEvent : Event Op.Ans Err → Option (Event Linking.Op.Ans Linking.Err)
  | ⟨.linking op, a⟩ => some ⟨op, linkingEmbedding.back op a⟩
  | _ => none

/-- The identity the linking service found or made. -/
def linkedRead : Event Linking.Op.Ans Linking.Err → Option ChatIdentity
  | ⟨.chatIdentityFindByAccount .., .ok found⟩ => found
  | ⟨.identityCreate _, .ok i⟩ => some i
  | _ => none

theorem identityRead_of_linked {e : Event Op.Ans Err} {e' : Event Linking.Op.Ans Linking.Err}
    {i : ChatIdentity} (he : linkingEvent e = some e') (hi : linkedRead e' = some i) :
    identityRead e = some i := by
  obtain ⟨op, a⟩ := e
  cases op with
  | linking op =>
      cases he
      cases op <;> cases a <;> exact hi
  | _ => cases he

/-- What the linking service read, the attempt did. -/
theorem read_of_linked {i : ChatIdentity}
    (h' : ∃ e ∈ h.filterMap linkingEvent, linkedRead e = some i) : Read identityRead h i := by
  obtain ⟨e, he, hi⟩ := h'
  obtain ⟨e', he', heq⟩ := List.mem_filterMap.mp he
  exact ⟨e', he', identityRead_of_linked heq hi⟩

/-- The identity is that of the account. -/
structure OfAccount (platform : ChatPlatform) (platformUserId : String) (i : ChatIdentity) : Prop where
  platform : i.platform = platform
  platformUserId : i.platformUserId = platformUserId

/-- The identity was found or made, for the account. -/
def Resolved (platform : ChatPlatform) (platformUserId : String) (r : Except Linking.Err ChatIdentity)
    (h : Linking.Hist) : Prop :=
  ∀ i, r = .ok i → (∃ e ∈ h, linkedRead e = some i) ∧ OfAccount platform platformUserId i

section Resolve

variable {platform : ChatPlatform} {platformUserId : String} {h : Linking.Hist}

theorem resolved_error {e : Linking.Err} : Resolved platform platformUserId (.error e) h :=
  fun _ hi => by cases hi

/-- The program gives the identity of the account, one that was found or is made for whom was minted. -/
abbrev Resolves (platform : ChatPlatform) (platformUserId : String) (p : Linking.Program ChatIdentity)
    (h : Linking.Hist) : Prop :=
  p.Along SenderRead Linking.Owns (Resolved platform platformUserId) h

/-- An identity that is looked up. -/
theorem find_resolves {f : Option ChatIdentity → Linking.Program ChatIdentity}
    (hsome : ∀ i, f (some i) = pure i) (hnone : ∀ h, Resolves platform platformUserId (f none) h) :
    Resolves platform platformUserId
      (Prog.perform (.chatIdentityFindByAccount platform platformUserId) >>= f) h := by
  rw [Resolves, along_perform_bind]
  refine ⟨Ownerless.ownedIn rfl, fun _ _ => resolved_error, fun found hfound => ?_⟩
  cases found with
  | none => exact hnone _
  | some existing =>
      rw [hsome]
      rintro _ ⟨⟩
      exact ⟨⟨_, List.mem_cons_self, rfl⟩, hfound.1, hfound.2⟩

/-- An identity that was lost to another call, or could not be created. -/
theorem lost_resolves {p : Linking.Program ChatIdentity} (e : Linking.Err)
    (hp : Resolves platform platformUserId p h) :
    Resolves platform platformUserId (if e = Linking.uniqueViolation then p else Prog.throw e) h := by
  split
  · exact hp
  · exact resolved_error

theorem resolveOrCreate_resolves (env : Linking.Env) (displayName : Option String) :
    Resolves platform platformUserId
      (Linking.resolveOrCreate env platform platformUserId displayName) [] := by
  rw [Linking.resolveOrCreate, Resolves, along_perform_bind]
  refine ⟨Ownerless.ownedIn rfl, fun _ _ => resolved_error, fun found hfound => ?_⟩
  cases found with
  | some existing =>
      rintro _ ⟨⟩
      exact ⟨⟨_, List.mem_cons_self, rfl⟩, hfound.1, hfound.2⟩
  | none =>
  dsimp only
  rw [along_perform_bind]
  refine ⟨Ownerless.ownedIn rfl, fun _ _ => resolved_error, fun authUserId _ => ?_⟩
  rw [along_tryCatch, along_perform_bind]
  refine ⟨fun u hu => ?_, fun e _ => lost_resolves e (find_resolves (fun _ => rfl) fun _ =>
    resolved_error), fun identity hmade => ?_⟩
  · cases hu
    simp [Linking.nameless, Linking.minted, Linking.identifies]
  rw [along_perform_bind]
  refine ⟨Ownerless.ownedIn rfl, fun e _ => lost_resolves e (find_resolves (fun _ => rfl)
    fun _ => resolved_error), fun _ _ => ?_⟩
  rintro _ ⟨⟩
  exact ⟨⟨_, List.mem_cons_of_mem _ List.mem_cons_self, rfl⟩, hmade.1, hmade.2⟩

end Resolve

/-- The identity of the sender is read. -/
theorem resolveOrCreate_reads (platform : ChatPlatform) (platformUserId : String)
    (displayName : Option String) :
    (linking (Linking.resolveOrCreate env.linking platform platformUserId displayName)).Along Answers
      Vouched (fun r h => ∀ i, r = .ok i → Read identityRead h i ∧ OfAccount platform platformUserId i)
      [] := by
  refine along_embed (List.filterMap linkingEvent) (fun op a h => rfl) (fun _ _ ha => ha)
    (fun _ _ _ => trivial) (fun a h hres => ?_) (fun e h _ i hi => by cases hi)
    (resolveOrCreate_resolves env.linking displayName)
  rintro i ⟨⟩
  exact ⟨read_of_linked (hres a rfl).1, (hres a rfl).2⟩

/-- The session of an identity, read. -/
abbrev Opens (id : Uuid) (p : Program ChatSession) (h : Hist) : Prop :=
  p.Along Answers Vouched (fun r h' => ∀ s, r = .ok s →
    Read sessionRead h' s ∧ s.chatIdentityId = id) h

theorem create_opens (id : Uuid) : Opens id (do
    let expiresAt ← freshExpiry env
    await (.chatSessionUpsert id expiresAt)) h := by
  rw [Opens, along_bind]
  refine (Uses.backs (freshExpiry_harmless env)).mono fun r h' _ => ?_
  cases r with
  | error e => exact fun _ hs => by cases hs
  | ok expiresAt =>
      refine ⟨trivial, fun a ha => ?_⟩
      cases a with
      | error e => exact fun _ hs => by cases hs
      | ok s =>
          rintro _ ⟨⟩
          exact ⟨read_cons rfl, ha⟩

theorem getOrCreate_opens (id : Uuid) : Opens id (getOrCreate env id) h := by
  unfold getOrCreate
  refine ⟨trivial, fun a ha => ?_⟩
  cases a with
  | error e => exact fun _ hs => by cases hs
  | ok found =>
      cases found with
      | none => exact create_opens id
      | some existing =>
          show Opens id ((core (Meduman.await .now)) >>= fun now =>
            if now < existing.expiresAt then pure existing else _) _
          rw [Opens, along_bind]
          refine (Uses.backs now_harmless).extends.mono fun r h' hr => ?_
          cases r with
          | error e => exact fun _ hs => by cases hs
          | ok now =>
              show Opens id (if now < existing.expiresAt then _ else _) _
              split
              · rintro _ ⟨⟩
                exact ⟨(read_cons rfl : Read sessionRead _ existing).suffix hr.2, ha⟩
              · exact create_opens id

/-- The identity is that of the sender. -/
abbrev FromSender (job : ChatInboundJobData) (i : ChatIdentity) : Prop := OfAccount job.platform job.sender i

theorem setUp_known (job : ChatInboundJobData) : (setUp env job).Along Answers Vouched
    (fun r h => ∀ a, r = .ok a → Known h a.1 a.2 ∧ FromSender job a.1.identity) [] := by
  unfold setUp
  rw [along_bind]
  refine (resolveOrCreate_reads job.platform job.sender job.displayName).mono fun r h hr => ?_
  cases r with
  | error e => exact fun _ ha => by cases ha
  | ok identity =>
      rw [then_ok, along_perform_bind]
      refine ⟨trivial, fun _ _ _ ha => (by cases ha), fun email _ => ?_⟩
      rw [along_bind]
      refine (getOrCreate_opens identity.id).extends.mono fun r h' hr' => ?_
      cases r with
      | error e => exact fun _ ha => by cases ha
      | ok session =>
          rintro _ ⟨⟩
          obtain ⟨hread, hown⟩ := hr'.1 session rfl
          obtain ⟨hidentity, hsender⟩ := hr identity rfl
          exact ⟨⟨hidentity.suffix ((List.suffix_cons _ _).trans hr'.2), hread, hown⟩, hsender⟩

/-- **Every write of an attempt is backed** by what the attempt read before it. -/
theorem processInbound_backed (job : ChatInboundJobData) : Backs [] (processInbound env job) := by
  unfold processInbound
  split
  · trivial
  · refine backs_bind (setUp_known job) fun a h hs hk => ?_
    exact (handle_backs hk.1 _ job).bind fun _ _ _ => ⟨trivial, fun a _ => by cases a <;> trivial⟩

end Meduman.Dialog
