import Meduman.Dialog.Entitled

/-!
# What a request reads before it writes

The routes of the web look for a side of the transaction before they move it on, read it or file for it;
an administrator may read and file, and a complaint is taken from whoever is signed in.

* `Justified` : what a call writes is backed by what it read, or is what its request asks for
* `Demand`, `Call.Cleared` : the side a request needs, and that it was read
* **`code_justified`** : every call keeps to both
-/

set_option autoImplicit false

namespace Meduman.Web

open Effect
open Dialog (Read SideRead Signs Vouched transactionRead)

/-- What a call has done. -/
abbrev Hist := History Op.Ans Err

variable {w u : World}

/-! ## What a request asks for -/

/-- The call complains about the transaction in the user's name. -/
def Call.Complains (t user : Uuid) : Call → Prop
  | .raise claims transactionId _ => transactionId = t ∧ claims.sub = user
  | _ => False

/-- An administrator registers a file for the transaction. -/
def Call.Administers (t user : Uuid) : Call → Prop
  | .create claims id _ => id = t ∧ claims.sub = user ∧ isAdmin claims = true
  | _ => False

/-- The call registers a file for the transaction, and names the dispute itself. -/
def Call.Names (t dispute : Uuid) : Call → Prop
  | .create _ id dto => id = t ∧ dto.disputeId = some dispute
  | _ => False

/-! ## What a call writes -/

/-- What the dialog sees of a call. -/
def dialogEvent : Event Op.Ans Err → Option (Event Dialog.Op.Ans Dialog.Err)
  | ⟨.dialog op, a⟩ => some ⟨op, dialogEmbedding.back op a⟩
  | _ => none

abbrev inner (h : Hist) : History Dialog.Op.Ans Dialog.Err := h.filterMap dialogEvent

/-- The operation complains about the transaction in the user's name. -/
def Complaint (t user : Uuid) : Dialog.Op → Prop
  | .core (.commitTransition d) => d.timeline.transactionId = t ∧
      d.timeline.actorId = some user.text ∧ d.timeline.type = timelineType .raiseDispute
  | .core (.disputeCreate d) => d.transactionId = t ∧ d.openedBy = user
  | _ => False

/-- What is written is backed by what was read, or what the request asks for. -/
def Justified (c : Call) (h : Hist) : Op → Prop
  | .dialog op => Vouched (inner h) op ∨ ∃ t user, c.Complains t user ∧ Complaint t user op
  | .web (.evidenceCreate d) => (SideRead (inner h) .either d.transactionId d.uploadedBy ∨
      c.Administers d.transactionId d.uploadedBy) ∧
        ∀ id, d.disputeId = some id → c.Names d.transactionId id
  | .web _ => True

/-- What an answer says to the dialog. -/
def Answers (e : Event Op.Ans Err) : Prop := ∀ e', dialogEvent e = some e' → Dialog.Answers e'

theorem answers_exec {op : Op} {o : Choice} {a : Except Err op.Ans}
    (he : exec op o u = some (a, w)) : Answers ⟨op, a⟩ := by
  intro e' he'
  cases op with
  | web op => cases he'
  | dialog op =>
      cases he'
      cases o with
      | web f => cases he
      | dialog f =>
          obtain ⟨⟨a₀, w'⟩, hexec, heq⟩ := Option.map_eq_some_iff.mp he
          cases heq
          cases a₀ <;> exact Dialog.answers_exec hexec

section Keeps

variable {α β : Type} {c : Call} {R : α → Hist → Prop} {S : β → Hist → Prop} {h h' : Hist}

/-- The program keeps to what is justified, and gives what satisfies `R`. -/
abbrev Keeps (c : Call) (R : α → Hist → Prop) (p : Program α) (h : Hist) : Prop :=
  p.Gives Answers (Justified c) R h

/-- An operation of the web. -/
theorem keeps_await {op : WebOp} {R : op.Ans → Hist → Prop} (hjust : Justified c h (.web op))
    (hR : ∀ a, R a (⟨.web op, .ok a⟩ :: h)) : Keeps c R (await op) h :=
  gives_perform _ hjust fun a _ => hR a

/-- What the dialog does. -/
theorem dialog_keeps {p : Dialog.Program α} {R : α → History Dialog.Op.Ans Dialog.Err → Prop}
    (hp : p.Along Dialog.Answers Vouched (fun r h' => ∀ a, r = .ok a → R a h') (inner h)) :
    Keeps c (fun a h' => R a (inner h')) (dialog p) h :=
  along_embed inner (fun _ _ _ => rfl) (fun _ _ ha => ha _ rfl) (fun _ _ hop => .inl hop)
    (fun a h' hr b hb => by cases hb; exact hr a rfl) (fun _ _ _ _ ha => by cases ha) hp

theorem backs_keeps {p : Dialog.Program α} (hp : Dialog.Backs (inner h) p) :
    Keeps c (fun _ _ => True) (dialog p) h :=
  dialog_keeps (R := fun _ _ => True) (hp.mono fun _ _ _ _ _ => trivial)

theorem inner_suffix (hs : h <:+ h') : inner h <:+ inner h' := hs.filterMap dialogEvent

end Keeps

/-! ## Requests -/

/-- What a request is refused for: the side it needs in a transaction, and whether an administrator may
send it too. -/
structure Demand where
  side : Side
  transactionId : Uuid
  claims : SupabaseJwtClaims
  admin : Bool := false

def Call.demand : Call → Option Demand
  | .get claims id | .timeline claims id | .disputes claims id | .payouts claims id
  | .create claims id _ => some ⟨.either, id, claims, true⟩
  | .publish claims id | .startDelivery claims id | .markDelivered claims id | .cancel claims id =>
      some ⟨.seller, id, claims, false⟩
  | .confirm claims id | .requestOtp claims id | .confirmOtp claims id _ =>
      some ⟨.buyer, id, claims, false⟩
  | .raise .. | .download .. | .message _ | .link _ => none

/-- What a request demands was read. -/
def Demand.Met (d : Demand) (h : Hist) : Prop :=
  SideRead (inner h) d.side d.transactionId d.claims.sub ∨ d.admin = true ∧ isAdmin d.claims = true

/-- The file was read, with the user as a side of its transaction. -/
def FileRead (h : Hist) (evidenceId : Uuid) (claims : SupabaseJwtClaims) : Prop :=
  ∃ ev sellerId buyerId, (⟨.web (.evidenceFindUnique evidenceId),
    .ok (some (ev, sellerId, buyerId))⟩ : Event Op.Ans Err) ∈ h ∧
      isParticipant sellerId buyerId claims = true

/-- Whom a call is taken from, as was read. -/
def Call.Cleared (c : Call) (h : Hist) : Prop :=
  (∀ d, c.demand = some d → d.Met h) ∧ ∀ claims evidenceId, c = .download claims evidenceId →
    FileRead h evidenceId claims ∨ isAdmin claims = true

section Requests

variable {c : Call} {h h' : Hist} {claims : SupabaseJwtClaims} {id : Uuid}

theorem Demand.Met.suffix {d : Demand} (hd : d.Met h) (hs : h <:+ h') : d.Met h' :=
  hd.imp (fun hr => hr.suffix (inner_suffix hs)) fun ha => ha

/-- A demand that is met clears its call. -/
theorem cleared_of_met {d : Demand} (hdemand : c.demand = some d) (hd : d.Met h) : c.Cleared h := by
  refine ⟨fun d' hd' => ?_, fun claims evidenceId hc => ?_⟩
  · obtain rfl : d = d' := Option.some.inj (hdemand.symm.trans hd')
    exact hd
  · rw [hc] at hdemand
    cases hdemand

theorem getById_keeps (id : Uuid) :
    Keeps c (fun tx h' => tx.id = id ∧ Read transactionRead (inner h') tx) (getById id) h :=
  dialog_keeps (Dialog.getById_reads id)

theorem assertParticipant_keeps {sellerId : Uuid} {buyerId : Option Uuid} :
    Keeps c (fun _ _ => isParticipant sellerId buyerId claims = true ∨ isAdmin claims = true)
      (assertParticipant sellerId buyerId claims) h := by
  unfold assertParticipant
  split
  · exact gives_throw _
  · rename_i hallowed
    refine gives_pure ?_
    simpa [or_iff_not_imp_left] using hallowed

/-- Somebody who takes part in the transaction, or an administrator. -/
theorem get_keeps : Keeps c (fun _ h' => Demand.Met ⟨.either, id, claims, true⟩ h') (get claims id) h := by
  refine gives_bind (getById_keeps id) fun tx h₁ _ htx => ?_
  obtain ⟨rfl, hread⟩ := htx
  refine gives_bind assertParticipant_keeps fun _ h₂ hs hallowed => gives_pure ?_
  refine hallowed.imp (fun hparty => ⟨tx, hread.suffix (inner_suffix hs), rfl, hparty⟩) fun ha => ?_
  exact ⟨rfl, ha⟩

theorem getFor_keeps {α : Type} {read : Program α} (hread : ∀ h, Keeps c (fun _ _ => True) read h) :
    Keeps c (fun _ h' => Demand.Met ⟨.either, id, claims, true⟩ h') (getFor claims id read) h := by
  refine gives_bind get_keeps fun _ h₁ _ hmet => ?_
  refine gives_bind (getById_keeps id) fun _ h₂ hs _ => ?_
  exact Prog.Gives.weaken (hread h₂) fun _ h₃ hs' _ => hmet.suffix (hs.trans hs')

/-- The seller. -/
theorem sellerAction_keeps {event : TransactionEvent}
    (hevent : ∀ side, sideOf (timelineType event) = some side → side = .seller) :
    Keeps c (fun _ h' => Demand.Met ⟨.seller, id, claims, false⟩ h') (sellerAction claims id event) h := by
  refine gives_bind (getById_keeps id) fun tx h₁ _ htx => ?_
  obtain ⟨rfl, hread⟩ := htx
  split
  · exact gives_throw _
  · rename_i hseller
    have hside : SideRead (inner h₁) .seller tx.id claims.sub :=
      ⟨tx, hread, rfl, beq_iff_eq.mpr (not_not.mp hseller)⟩
    have hsigns : Signs (inner h₁) (sellerEvent claims tx.id event) := by
      intro side hs
      obtain rfl := hevent side hs
      exact ⟨claims.sub, rfl, hside⟩
    exact Prog.Gives.weaken (backs_keeps (Dialog.apply_backs hsigns)) fun _ h₂ hs _ =>
      .inl (hside.suffix (inner_suffix hs))

/-- The buyer, who is asked for. -/
theorem buyer_keeps {α : Type} {f : Transaction → Program α} {message : String}
    (hf : ∀ tx h', SideRead (inner h') .buyer id claims.sub → Keeps c (fun _ _ => True) (f tx) h') :
    Keeps c (fun _ h' => Demand.Met ⟨.buyer, id, claims, false⟩ h') (do
      let tx ← getById id
      if tx.buyerId ≠ some claims.sub then Prog.throw (.forbidden message) else f tx) h := by
  refine gives_bind (getById_keeps id) fun tx h₁ _ htx => ?_
  obtain ⟨rfl, hread⟩ := htx
  split
  · exact gives_throw _
  · rename_i hbuyer
    have hside : SideRead (inner h₁) .buyer tx.id claims.sub :=
      ⟨tx, hread, rfl, beq_iff_eq.mpr (not_not.mp hbuyer)⟩
    exact Prog.Gives.weaken (hf tx h₁ hside) fun _ h₂ hs _ => .inl (hside.suffix (inner_suffix hs))

theorem requestOtp_keeps {env : Otp.Env} :
    Keeps c (fun _ h' => Demand.Met ⟨.buyer, id, claims, false⟩ h') (requestOtp env claims id) h := by
  refine buyer_keeps fun tx h' _ => ?_
  exact gives_bind (backs_keeps (Dialog.Uses.backs (Dialog.otp_harmless _))) fun _ _ _ _ =>
    gives_pure trivial

theorem confirmOtp_keeps {env : Otp.Env} {dto : VerifyOtpDto} :
    Keeps c (fun _ h' => Demand.Met ⟨.buyer, id, claims, false⟩ h') (confirmOtp env claims id dto) h := by
  refine buyer_keeps fun tx h' hside => ?_
  refine gives_bind (backs_keeps (Dialog.Uses.backs (Dialog.otp_harmless _))) fun _ h₁ hs _ => ?_
  have hsigns := Dialog.confirmation_signs (some "buyer confirmed via OTP")
    (hside.suffix (inner_suffix hs))
  refine gives_bind (backs_keeps (Dialog.apply_backs hsigns)) fun _ _ _ _ => ?_
  exact gives_bind (backs_keeps (Dialog.Uses.backs (Dialog.enqueueRelease_harmless id)))
    fun _ _ _ _ => gives_pure trivial

theorem confirm_keeps :
    Keeps c (fun _ h' => Demand.Met ⟨.buyer, id, claims, false⟩ h') (confirm claims id) h :=
  Prog.Gives.weaken (dialog_keeps (Dialog.confirm_backs id claims.sub none)) fun _ _ _ hr => .inl hr

/-- What a complaint performs. -/
theorem raise_complains (input : RaiseDisputeInput) : (Meduman.raise input).Uses fun op =>
    (∀ h, Vouched h (.core op)) ∨ Complaint input.transactionId input.openedBy (.core op) := by
  refine uses_bind ((apply_does (c := .drive input.event) rfl).mono fun op hdoes => ?_)
    fun _ => uses_perform (.inr ⟨rfl, rfl⟩)
  cases op with
  | commitTransition d =>
      obtain ⟨applied, tx, context, nextState, happlies, -, rfl⟩ := hdoes
      obtain rfl : applied = input.event := happlies
      exact .inr ⟨rfl, rfl, rfl⟩
  | disputeCreate d =>
      obtain ⟨i, hi, -⟩ := hdoes
      cases hi
  | _ => exact .inl fun _ => trivial

/-- A complaint over the web, in the name of whoever is signed in. -/
theorem raise_keeps (claims : SupabaseJwtClaims) (transactionId : Uuid) (dto : RaiseDisputeDto) :
    Keeps (.raise claims transactionId dto) (fun _ _ => True) (raise claims transactionId dto) [] := by
  have huses : (raise claims transactionId dto).Uses fun op => ∃ op', op = .dialog op' ∧
      ((∀ h, Vouched h op') ∨ Complaint transactionId claims.sub op') :=
    uses_embed (uses_embed (raise_complains (dto.input claims transactionId))
      (B := fun op' => (∀ h, Vouched h op') ∨ Complaint transactionId claims.sub op')
      fun _ hop => hop) fun op' hop => ⟨op', rfl, hop⟩
  refine huses.along (fun h' op hop => ?_) fun _ _ _ _ _ => trivial
  obtain ⟨op', rfl, hback | hcomplaint⟩ := hop
  · exact .inl (hback _)
  · exact .inr ⟨transactionId, claims.sub, ⟨rfl, rfl⟩, hcomplaint⟩

/-- **A file over the web,** of a party that was read, or of an administrator. -/
theorem create_keeps (claims : SupabaseJwtClaims) (id : Uuid) (dto : CreateEvidenceDto) :
    Keeps (.create claims id dto) (fun _ h' => Demand.Met ⟨.either, id, claims, true⟩ h')
      (create claims id dto) [] := by
  refine gives_bind (getById_keeps id) fun tx h₁ _ htx => ?_
  obtain ⟨rfl, hread⟩ := htx
  refine gives_bind assertParticipant_keeps fun _ h₂ hs₂ hallowed => ?_
  have hmet : Demand.Met ⟨.either, tx.id, claims, true⟩ h₂ :=
    hallowed.imp (fun hparty => ⟨tx, hread.suffix (inner_suffix hs₂), rfl, hparty⟩)
      fun hadmin => ⟨rfl, hadmin⟩
  refine gives_bind (backs_keeps (Dialog.Uses.backs Dialog.randomUUID_harmless)) fun uuid h₃ hs₃ _ => ?_
  refine gives_bind (R := fun _ _ => True) (keeps_await trivial fun _ => trivial) fun upload h₄ hs₄ _ => ?_
  have hmet := hmet.suffix (hs₃.trans hs₄)
  refine gives_bind (R := fun _ h' => Demand.Met ⟨.either, tx.id, claims, true⟩ h')
    (keeps_await ⟨?_, fun dispute hd => ⟨rfl, hd⟩⟩ fun _ => hmet.suffix (List.suffix_cons _ _))
    fun _ _ _ hmet => gives_pure hmet
  exact hmet.imp (fun hparty => hparty) fun hadmin => ⟨rfl, rfl, hadmin.2⟩

theorem download_keeps (claims : SupabaseJwtClaims) (evidenceId : Uuid) :
    Keeps (.download claims evidenceId)
      (fun _ h' => FileRead h' evidenceId claims ∨ isAdmin claims = true)
      (download claims evidenceId) [] := by
  refine gives_bind (R := fun found h' => ∀ ev sellerId buyerId,
    found = some (ev, sellerId, buyerId) → (⟨.web (.evidenceFindUnique evidenceId),
      .ok (some (ev, sellerId, buyerId))⟩ : Event Op.Ans Err) ∈ h')
    (keeps_await trivial fun found ev sellerId buyerId hfound => ?_) fun found h₁ _ hread => ?_
  · rw [hfound]
    exact List.mem_cons_self
  · rcases found with _ | ⟨ev, sellerId, buyerId⟩
    · exact gives_throw _
    · refine gives_bind assertParticipant_keeps fun _ h₂ hs hallowed => ?_
      refine keeps_await trivial fun _ => hallowed.imp (fun hparty => ?_) fun hadmin => hadmin
      have hmem := hs.subset (hread ev sellerId buyerId rfl)
      exact ⟨ev, sellerId, buyerId, List.mem_cons_of_mem _ hmem, hparty⟩

/-- **Every call keeps to what is justified,** and is taken from whom it demands. -/
theorem code_justified (env : Dialog.Env) (c : Call) :
    Keeps c (fun _ h' => c.Cleared h') (code env c) [] := by
  have hfor {α : Type} {p : Program α} {f : α → Reply} {d : Demand} (hdemand : c.demand = some d)
      (hp : Keeps c (fun _ h' => d.Met h') p []) : Keeps c (fun _ h' => c.Cleared h') (f <$> p) [] :=
    gives_map (Prog.Gives.weaken hp fun _ _ _ hmet => cleared_of_met hdemand hmet)
  have hfree {α : Type} {p : Program α} {f : α → Reply} (hdemand : c.demand = none)
      (hno : ∀ claims evidenceId, c ≠ .download claims evidenceId)
      (hp : Keeps c (fun _ _ => True) p []) : Keeps c (fun _ h' => c.Cleared h') (f <$> p) [] := by
    refine gives_map (Prog.Gives.weaken hp fun _ _ _ _ => ⟨fun d hd => ?_, fun _ _ hc => absurd hc (hno _ _)⟩)
    rw [hdemand] at hd
    cases hd
  cases c with
  | get claims id => exact hfor rfl get_keeps
  | timeline claims id =>
      exact hfor rfl (getFor_keeps fun _ => keeps_await trivial fun _ => trivial)
  | disputes claims id =>
      exact hfor rfl (getFor_keeps fun _ => keeps_await trivial fun _ => trivial)
  | payouts claims id =>
      exact hfor rfl (getFor_keeps fun _ => gives_map (keeps_await trivial fun _ => trivial))
  | publish claims id => exact hfor rfl (sellerAction_keeps (by simp [Dialog.sideOf_event]))
  | startDelivery claims id => exact hfor rfl (sellerAction_keeps (by simp [Dialog.sideOf_event]))
  | markDelivered claims id => exact hfor rfl (sellerAction_keeps (by simp [Dialog.sideOf_event]))
  | cancel claims id => exact hfor rfl (sellerAction_keeps (by simp [Dialog.sideOf_event]))
  | confirm claims id => exact hfor rfl confirm_keeps
  | requestOtp claims id => exact hfor rfl requestOtp_keeps
  | confirmOtp claims id dto => exact hfor rfl confirmOtp_keeps
  | create claims id dto => exact hfor rfl (create_keeps claims id dto)
  | raise claims transactionId dto =>
      exact hfree rfl (fun _ _ h => by cases h) (raise_keeps claims transactionId dto)
  | download claims evidenceId =>
      refine gives_map (Prog.Gives.weaken (download_keeps claims evidenceId) fun _ _ _ hread => ?_)
      refine ⟨fun d hd => (by cases hd), fun claims' evidenceId' hc => ?_⟩
      cases hc
      exact hread
  | message data =>
      exact hfree rfl (fun _ _ h => by cases h) (backs_keeps (Dialog.processInbound_backed data))
  | link call =>
      exact hfree rfl (fun _ _ h => by cases h)
        (backs_keeps (Dialog.Uses.backs (Dialog.linking_harmless _)))

end Requests

end Meduman.Web
