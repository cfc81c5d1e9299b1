import Meduman.Web.Requests

/-!
# Who is behind what is written

The chats and the web look for a side of the transaction before they write; an administrator may upload,
and a complaint over the web is taken from whoever is signed in. Merges move what is on file to the
account that stays.

* `Opened`, `Uploaded`, `Attached` : whom a dispute and a file come from, and what a file is attached to
* `Accounted` : all that is on file, and all that a chat remembers, comes from somebody
* `Sided` : the lines of the timeline that a side makes name that side
* `Knows`, `Carries` : what stays of what was read, and what a step leaves
* **`accounted_run`**, **`sided_run`**, **`permitted_run`** : every run
-/

set_option autoImplicit false

namespace Meduman.Web

open Effect
open Dialog (ChatSession SessionPatch Read SideRead Entitled Vouched transactionRead disputeRead
  identityRead sessionRead)
open Linking (ChatIdentity)

variable {env : Dialog.Env} {past past' : List World} {asked asked' : List Call} {u w : World}
  {t user : Uuid} {side : Side}

/-! ## Who is behind a row -/

/-- The user, or an account merged with theirs, asked for it. -/
def Asked (past : List World) (asked : List Call) (by' : Uuid → Call → Prop) (user : Uuid) : Prop :=
  ∃ v, SameUser past v user ∧ ∃ c ∈ asked, by' v c

/-- Whom a complaint comes from: one who took part, or who complained over the web. -/
def Opened (past : List World) (asked : List Call) (t user : Uuid) : Prop :=
  TookPart past t user ∨ Asked past asked (Call.Complains t) user

/-- Whom a file comes from: one who took part, or an administrator. -/
def Uploaded (past : List World) (asked : List Call) (t user : Uuid) : Prop :=
  TookPart past t user ∨ Asked past asked (Call.Administers t) user

/-- The dispute exists, on the file's own transaction unless a request of the web named it. -/
def Attached (asked : List Call) (w : World) (t dispute : Uuid) : Prop :=
  (∃ t', Filed w.core dispute t') ∧
    (Filed w.core dispute t ∨ ∃ c ∈ asked, c.Names t dispute)

/-- The dispute a session remembers is one its chat's owner took part in. -/
def Remembers (past : List World) (w : World) (s : ChatSession) : Prop :=
  ∀ id, s.disputeId = some id → ∃ i ∈ w.accounts.chatIdentities, i.id = s.chatIdentityId ∧
    ∃ t, Filed w.core id t ∧ TookPart past t i.userId

/-- **All that is on file comes from somebody who may file it.** -/
structure Accounted (past : List World) (asked : List Call) (w : World) : Prop where
  disputes : ∀ d ∈ w.core.disputes, Opened past asked d.transactionId d.openedBy
  uploaded : ∀ e ∈ w.accounts.evidence, Uploaded past asked e.transactionId e.uploadedBy
  attached : ∀ e ∈ w.accounts.evidence, ∀ id, e.disputeId = some id →
    Attached asked w e.transactionId id
  remembered : ∀ s ∈ w.sessions, Remembers past w s

/-- Who is named by a line that a side makes: one on that side, or one who complained over the web. -/
def Named (past : List World) (asked : List Call) (side : Side) (t user : Uuid) : Prop :=
  Held past side t user ∨ side = .either ∧ ∃ c ∈ asked, c.Complains t user

/-- **Every line that a side makes names somebody on that side.** -/
def Sided (past : List World) (asked : List Call) (w : World) : Prop :=
  ∀ e ∈ w.core.timeline, ∀ side, sideOf e.type = some side →
    ∃ user : Uuid, e.actorId = some user.text ∧ Named past asked side e.transactionId user

/-! ## What stays -/

theorem SameUser.mono (hp : past ⊆ past') {a b : Uuid} (h : SameUser past a b) :
    SameUser past' a b :=
  Relation.EqvGen.mono (fun _ _ hj => by
    obtain ⟨w, hw, hr⟩ := hj
    exact ⟨w, hp hw, hr⟩) a b h

theorem SameUser.refl (a : Uuid) : SameUser past a a := Relation.EqvGen.refl a

theorem Held.mono (hp : past ⊆ past') (h : Held past side t user) : Held past' side t user := by
  obtain ⟨w, hw, hside⟩ := h
  exact ⟨w, hp hw, hside⟩

theorem Held.tookPart (h : Held past .either t user) : TookPart past t user :=
  ⟨user, h, SameUser.refl user⟩

theorem TookPart.mono (hp : past ⊆ past') (h : TookPart past t user) : TookPart past' t user := by
  obtain ⟨v, hv, hsame⟩ := h
  exact ⟨v, hv.mono hp, hsame.mono hp⟩

theorem TookPart.same (h : TookPart past t user) {v : Uuid} (hsame : SameUser past user v) :
    TookPart past t v := by
  obtain ⟨v₀, hv₀, hv⟩ := h
  exact ⟨v₀, hv₀, hv.trans _ _ _ hsame⟩

theorem Asked.mono {by' : Uuid → Call → Prop} (hp : past ⊆ past') (ha : asked ⊆ asked')
    (h : Asked past asked by' user) : Asked past' asked' by' user := by
  obtain ⟨v, hv, c, hc, hby⟩ := h
  exact ⟨v, hv.mono hp, c, ha hc, hby⟩

theorem Asked.same {by' : Uuid → Call → Prop} (h : Asked past asked by' user) {v : Uuid}
    (hsame : SameUser past user v) : Asked past asked by' v := by
  obtain ⟨v₀, hv₀, hc⟩ := h
  exact ⟨v₀, hv₀.trans _ _ _ hsame, hc⟩

theorem Opened.mono (hp : past ⊆ past') (ha : asked ⊆ asked') (h : Opened past asked t user) :
    Opened past' asked' t user :=
  h.imp (TookPart.mono hp) (Asked.mono hp ha)

theorem Opened.same (h : Opened past asked t user) {v : Uuid} (hsame : SameUser past user v) :
    Opened past asked t v :=
  h.imp (fun h => h.same hsame) fun h => h.same hsame

theorem Uploaded.mono (hp : past ⊆ past') (ha : asked ⊆ asked') (h : Uploaded past asked t user) :
    Uploaded past' asked' t user :=
  h.imp (TookPart.mono hp) (Asked.mono hp ha)

theorem Uploaded.same (h : Uploaded past asked t user) {v : Uuid} (hsame : SameUser past user v) :
    Uploaded past asked t v :=
  h.imp (fun h => h.same hsame) fun h => h.same hsame

theorem Named.mono (hp : past ⊆ past') (ha : asked ⊆ asked') (h : Named past asked side t user) :
    Named past' asked' side t user := by
  refine h.imp (Held.mono hp) fun hc => ?_
  obtain ⟨hside, c, hc, hcomplains⟩ := hc
  exact ⟨hside, c, ha hc, hcomplains⟩

/-- What a step keeps: the worlds passed, the calls, the disputes on file, and whose chats there are. -/
structure Grows (past past' : List World) (asked asked' : List Call) (u w : World) : Prop where
  past : past ⊆ past'
  asked : asked ⊆ asked'
  filed : ∀ {id t}, Filed u.core id t → Filed w.core id t
  identity : ∀ i ∈ u.accounts.chatIdentities, ∃ j ∈ w.accounts.chatIdentities, j.id = i.id ∧
    SameUser past' i.userId j.userId

theorem Attached.grows (hg : Grows past past' asked asked' u w) {dispute : Uuid}
    (h : Attached asked u t dispute) : Attached asked' w t dispute := by
  obtain ⟨⟨t', hfiled⟩, hnamed⟩ := h
  refine ⟨⟨t', hg.filed hfiled⟩, hnamed.imp hg.filed fun hc => ?_⟩
  obtain ⟨c, hc, hnames⟩ := hc
  exact ⟨c, hg.asked hc, hnames⟩

theorem Remembers.grows (hg : Grows past past' asked asked' u w) {s : ChatSession}
    (h : Remembers past u s) : Remembers past' w s := by
  intro id hid
  obtain ⟨i, hi, hown, t, hfiled, htook⟩ := h id hid
  obtain ⟨j, hj, hji, hsame⟩ := hg.identity i hi
  exact ⟨j, hj, hji.trans hown, t, hg.filed hfiled, (htook.mono hg.past).same hsame⟩

/-! ## What is read -/

/-- What was read, in the worlds since: a transaction was stored, a dispute is on file, an identity is its
owner's, a session remembers a dispute of its owner. -/
structure Knows (past : List World) (w : World) (e : Event Dialog.Op.Ans Dialog.Err) : Prop where
  transaction : ∀ t, transactionRead e = some t → ∃ u ∈ past, t ∈ u.core.transactions
  dispute : ∀ d, disputeRead e = some d → Filed w.core d.id d.transactionId
  identity : ∀ i, identityRead e = some i → ∃ j ∈ w.accounts.chatIdentities, j.id = i.id ∧
    SameUser past i.userId j.userId
  session : ∀ s, sessionRead e = some s → Remembers past w s

theorem Knows.grows (hg : Grows past past' asked asked' u w) {e : Event Dialog.Op.Ans Dialog.Err}
    (h : Knows past u e) : Knows past' w e where
  transaction t ht := by
    obtain ⟨v, hv, hmem⟩ := h.transaction t ht
    exact ⟨v, hg.past hv, hmem⟩
  dispute d hd := hg.filed (h.dispute d hd)
  identity i hi := by
    obtain ⟨j, hj, hji, hsame⟩ := h.identity i hi
    obtain ⟨k, hk, hkj, hsame'⟩ := hg.identity j hj
    exact ⟨k, hk, hkj.trans hji, (hsame.mono hg.past).trans _ _ _ hsame'⟩
  session s hs := (h.session s hs).grows hg

variable {h : History Dialog.Op.Ans Dialog.Err}

/-- A side that was read was held. -/
theorem SideRead.held (hknow : ∀ e ∈ h, Knows past w e) (hp : SideRead h side t user) :
    Held past side t user := by
  obtain ⟨tx, ⟨e, he, hread⟩, rfl, hholds⟩ := hp
  obtain ⟨u, hu, hmem⟩ := (hknow e he).transaction tx hread
  exact ⟨u, hu, List.any_eq_true.mpr ⟨tx, hmem, by simpa using hholds⟩⟩

/-- A chat identity has one owner. -/
theorem identity_eq {i j : ChatIdentity} (hi : i ∈ w.accounts.chatIdentities)
    (hj : j ∈ w.accounts.chatIdentities) (hid : i.id = j.id) : i = j :=
  Table.eq_of_clash hi hj (by simp [Constrained.clash, hid])

/-- A dispute is on one transaction. -/
theorem filed_eq {w : Meduman.World} {id t t' : Uuid} (h : Filed w id t) (h' : Filed w id t') :
    t = t' := by
  obtain ⟨d, hd, rfl, rfl⟩ := Dialog.filed_iff.mp h
  obtain ⟨d', hd', hid, rfl⟩ := Dialog.filed_iff.mp h'
  rw [Table.eq_of_clash hd hd' (by simp [Constrained.clash, hid])]

/-- **Who may add to a dispute took part** in its transaction; the dispute is on file. -/
theorem Entitled.tookPart (hknow : ∀ e ∈ h, Knows past w e) {i : ChatIdentity} {d : Dispute}
    (he : Entitled h i d) : Filed w.core d.id d.transactionId ∧
      TookPart past d.transactionId i.userId := by
  obtain ⟨e, hmem, hread⟩ := he.dispute
  have hfiled := (hknow e hmem).dispute d hread
  refine ⟨hfiled, ?_⟩
  rcases he.party with hparty | ⟨s, ⟨e, hs, hread⟩, hown, hid⟩
  · exact (SideRead.held hknow hparty).tookPart
  · obtain ⟨j, hj, hjs, t, ht, htook⟩ := (hknow e hs).session s hread d.id hid
    obtain ⟨e, hi, hread⟩ := he.identity
    obtain ⟨k, hk, hki, hsame⟩ := (hknow e hi).identity i hread
    obtain rfl := identity_eq hj hk (hjs.trans (hown.trans hki.symm))
    rw [filed_eq hfiled ht]
    exact htook.same hsame.symm

/-! ## Operations of the dialog -/

section Dialog

variable {op : Dialog.Op} {o : Dialog.Choice} {a : Except Dialog.Err op.Ans}

/-- Whom a merge moved rows to is the same user. -/
theorem same_merged {source target : Uuid} (hm : Dialog.Merges op u w source target) (a : Uuid) :
    SameUser (w :: past) a (a.merged source target) := by
  unfold Uuid.merged
  split
  · rename_i hsource
    obtain ⟨r, hr, hid, hinto⟩ := hm.tombstone
    exact Relation.EqvGen.rel _ _ ⟨w, List.mem_cons_self, r, hr, hid.trans hsource.symm, hinto⟩
  · exact SameUser.refl a

theorem grows_dialog (he : Dialog.exec op o u = some (a, w)) :
    Grows past (w :: past) asked asked u w where
  past := List.subset_cons_self w past
  asked := List.Subset.refl asked
  filed := Dialog.filed_kept he
  identity i hi := by
    obtain ⟨j, hj, hji, hsame | ⟨source, target, hm, hsource, htarget⟩⟩ := Dialog.identity_kept he hi
    · exact ⟨j, hj, hji, hsame ▸ SameUser.refl _⟩
    · refine ⟨j, hj, hji, ?_⟩
      have hmerged : SameUser (w :: past) i.userId (i.userId.merged source target) :=
        same_merged hm _
      rwa [Uuid.merged, if_pos hsource, ← htarget] at hmerged

/-- What an operation is backed by, or the call that asks for it. -/
def Allowed (asked : List Call) (h : History Dialog.Op.Ans Dialog.Err) (op : Dialog.Op) : Prop :=
  Vouched h op ∨ ∃ t user, (∃ c ∈ asked, c.Complains t user) ∧ Complaint t user op

variable {h : History Dialog.Op.Ans Dialog.Err}

theorem opened_created (hknow : ∀ e ∈ h, Knows past u e) {d : DisputeCreate}
    (hallowed : Allowed asked h (.core (.disputeCreate d))) :
    Opened past asked d.transactionId d.openedBy := by
  rcases hallowed with hback | ⟨t, user, hasked, rfl, rfl⟩
  · exact .inl (SideRead.held hknow hback).tookPart
  · exact .inr ⟨_, SameUser.refl _, hasked⟩

theorem named_committed (hknow : ∀ e ∈ h, Knows past u e) {d : TransitionWrite}
    (hallowed : Allowed asked h (.core (.commitTransition d)))
    (hside : sideOf d.timeline.type = some side) : ∃ user : Uuid,
      d.timeline.actorId = some user.text ∧ Named past asked side d.timeline.transactionId user := by
  rcases hallowed with hback | ⟨t, user, hasked, rfl, hactor, htype⟩
  · obtain ⟨user, hactor, hread⟩ := hback side hside
    exact ⟨user, hactor, .inl (SideRead.held hknow hread)⟩
  · rw [htype, Dialog.sideOf_event] at hside
    exact ⟨user, hactor, .inr ⟨(Option.some.inj hside).symm, hasked⟩⟩

/-- A file the dialog stores: its uploader took part, and its dispute is on its transaction. -/
theorem filed_created (hknow : ∀ e ∈ h, Knows past u e) {d : Dialog.EvidenceCreate}
    (hallowed : Allowed asked h (.chat (.evidenceCreate d))) :
    TookPart past d.transactionId d.uploadedBy ∧ Filed u.core d.disputeId d.transactionId := by
  rcases hallowed with ⟨i, dispute, he, ht, hd, hby⟩ | ⟨_, _, _, hno⟩
  · obtain ⟨hfiled, htook⟩ := Entitled.tookPart hknow he
    rw [ht, hd, hby]
    exact ⟨htook, hfiled⟩
  · exact hno.elim

/-- What a session remembers after it was updated. -/
theorem updated_remembers (hacc : Accounted past asked u) (hknow : ∀ e ∈ h, Knows past u e)
    {s : ChatSession} (hs : s ∈ u.sessions) {patch : SessionPatch} {expiresAt : Int}
    (hallowed : Allowed asked h (.chat (.chatSessionUpdate s.chatIdentityId patch expiresAt))) :
    Remembers past u (patch.apply expiresAt s) := by
  intro id hid
  cases hdraft : patch.draft with
  | none =>
      refine hacc.remembered s hs id ?_
      simpa [SessionPatch.apply, ChatSession.disputeId, hdraft] using hid
  | some draft =>
      have hpatch : patch.disputeId = some id := by
        simpa [SessionPatch.apply, ChatSession.disputeId, SessionPatch.disputeId, hdraft] using hid
      rcases hallowed with hback | ⟨_, _, _, hno⟩
      · rcases hback id hpatch with ⟨s', ⟨e, he, hread⟩, hown, hid'⟩ | ⟨i, d, hentitled, hi, rfl⟩
        · obtain ⟨j, hj, hjs, hrest⟩ := (hknow e he).session s' hread id hid'
          exact ⟨j, hj, hjs.trans hown, hrest⟩
        · obtain ⟨hfiled, htook⟩ := Entitled.tookPart hknow hentitled
          obtain ⟨e, he, hread⟩ := hentitled.identity
          obtain ⟨j, hj, hji, hsame⟩ := (hknow e he).identity i hread
          exact ⟨j, hj, hji.trans hi, d.transactionId, hfiled, htook.same hsame⟩
      · exact hno.elim

/-- **An operation of the dialog** keeps everything accounted for. -/
theorem accounted_dialog (hacc : Accounted past asked u) (hknow : ∀ e ∈ h, Knows past u e)
    (hallowed : Allowed asked h op) (he : Dialog.exec op o u = some (a, w)) :
    Accounted (w :: past) asked w := by
  have hg : Grows past (w :: past) asked asked u w := grows_dialog he
  have hopened {t user : Uuid} (ho : Opened past asked t user) := ho.mono hg.past hg.asked
  have huploaded {t user : Uuid} (ho : Uploaded past asked t user) := ho.mono hg.past hg.asked
  constructor
  · intro d hd
    rcases Dialog.dispute_origin he hd with ⟨d₀, hd₀, -, ht, hby⟩ | ⟨c, id, rfl, rfl⟩ |
      ⟨source, target, hm, d₀, hd₀, rfl⟩
    · rw [ht, hby]
      exact hopened (hacc.disputes d₀ hd₀)
    · exact hopened (opened_created hknow hallowed)
    · exact (hopened (hacc.disputes d₀ hd₀)).same (same_merged hm _)
  · intro e hmem
    rcases Dialog.evidence_origin he hmem with hmem | ⟨c, id, rfl, rfl⟩ |
      ⟨source, target, hm, e₀, he₀, rfl⟩
    · exact huploaded (hacc.uploaded e hmem)
    · exact huploaded (.inl (filed_created hknow hallowed).1)
    · exact (huploaded (hacc.uploaded e₀ he₀)).same (same_merged hm _)
  · intro e hmem id hid
    rcases Dialog.evidence_origin he hmem with hmem | ⟨c, id', rfl, rfl⟩ |
      ⟨source, target, hm, e₀, he₀, rfl⟩
    · exact (hacc.attached e hmem id hid).grows hg
    · cases hid
      have hfiled := (filed_created hknow hallowed).2
      exact ⟨⟨_, hg.filed hfiled⟩, .inl (hg.filed hfiled)⟩
    · exact (hacc.attached e₀ he₀ id hid).grows hg
  · intro s hs
    rcases Dialog.session_origin he hs with hs | ⟨id, t, rfl⟩ | ⟨s₀, hs₀, patch, t, rfl, rfl⟩
    · exact (hacc.remembered s hs).grows hg
    · intro id hid
      cases hid
    · exact (updated_remembers hacc hknow hs₀ hallowed).grows hg

/-- **An operation of the dialog** adds lines of the sides that make them only. -/
theorem sided_dialog (hsided : Sided past asked u) (hknow : ∀ e ∈ h, Knows past u e)
    (hallowed : Allowed asked h op) (he : Dialog.exec op o u = some (a, w)) :
    Sided (w :: past) asked w := by
  intro e hmem side hside
  have hnamed {user : Uuid} (hn : Named past asked side e.transactionId user) :
      Named (w :: past) asked side e.transactionId user :=
    hn.mono (List.subset_cons_self w past) (List.Subset.refl asked)
  rcases Dialog.timeline_origin he hmem with hmem | ⟨d, rfl, rfl⟩
  · obtain ⟨user, hactor, hn⟩ := hsided e hmem side hside
    exact ⟨user, hactor, hnamed hn⟩
  · obtain ⟨user, hactor, hn⟩ := named_committed hknow hallowed hside
    exact ⟨user, hactor, hnamed hn⟩

/-- What an operation answers is known. -/
theorem knows_dialog (hu : u ∈ past) (hacc : Accounted (w :: past) asked w)
    (he : Dialog.exec op o u = some (a, w)) : Knows (w :: past) w ⟨op, a⟩ where
  transaction t ht := ⟨u, List.mem_cons_of_mem w hu, Dialog.transactionRead_mem he ht⟩
  dispute d hd := Dialog.filed_iff.mpr ⟨d, Dialog.disputeRead_mem he hd, rfl, rfl⟩
  identity i hi := ⟨i, Dialog.identityRead_mem he hi, rfl, SameUser.refl _⟩
  session s hs := by
    rcases Dialog.sessionRead_mem he hs with hs | ⟨id, t, rfl⟩
    · exact hacc.remembered s hs
    · intro id hid
      cases hid

end Dialog

/-! ## Other steps -/

/-- A step that adds no complaint keeps everything accounted for, if new files are. -/
theorem Accounted.carry (hacc : Accounted past asked u) (hg : Grows past past' asked asked' u w)
    (disputes : ∀ d ∈ w.core.disputes, ∃ d₀ ∈ u.core.disputes, Dialog.SameDispute d d₀)
    (evidence : ∀ e ∈ w.accounts.evidence, e ∈ u.accounts.evidence ∨
      Uploaded past' asked' e.transactionId e.uploadedBy ∧
        ∀ id, e.disputeId = some id → Attached asked' w e.transactionId id)
    (sessions : w.sessions = u.sessions) : Accounted past' asked' w where
  disputes d hd := by
    obtain ⟨d₀, hd₀, -, ht, hby⟩ := disputes d hd
    rw [ht, hby]
    exact (hacc.disputes d₀ hd₀).mono hg.past hg.asked
  uploaded e he := by
    rcases evidence e he with he | ⟨hup, -⟩
    · exact (hacc.uploaded e he).mono hg.past hg.asked
    · exact hup
  attached e he id hid := by
    rcases evidence e he with he | ⟨-, hatt⟩
    · exact (hacc.attached e he id hid).grows hg
    · exact hatt id hid
  remembered s hs := (hacc.remembered s (sessions ▸ hs)).grows hg

/-- A step that leaves the world alone. -/
theorem grows_self (hp : past ⊆ past') (ha : asked ⊆ asked') : Grows past past' asked asked' w w where
  past := hp
  asked := ha
  filed h := h
  identity i hi := ⟨i, hi, rfl, SameUser.refl _⟩

theorem Accounted.self (hacc : Accounted past asked w) (hp : past ⊆ past') (ha : asked ⊆ asked') :
    Accounted past' asked' w :=
  hacc.carry (grows_self hp ha) (fun d hd => ⟨d, hd, rfl, rfl, rfl⟩) (fun _ he => .inl he) rfl

/-- A step that adds no line of a side. -/
theorem Sided.carry (hsided : Sided past asked u) (hp : past ⊆ past') (ha : asked ⊆ asked')
    (timeline : ∀ e ∈ w.core.timeline, isSided e = true → e ∈ u.core.timeline) :
    Sided past' asked' w := by
  intro e he side hside
  have hmem := timeline e he (Option.isSome_iff_exists.mpr ⟨side, hside⟩)
  obtain ⟨user, hactor, hn⟩ := hsided e hmem side hside
  exact ⟨user, hactor, hn.mono hp ha⟩

/-- What a step leaves. -/
structure Carries (past past' : List World) (asked asked' : List Call) (u w : World) : Prop where
  grows : Grows past past' asked asked' u w
  accounted : Accounted past' asked' w
  sided : Sided past' asked' w

theorem carries_self (hacc : Accounted past asked w) (hsided : Sided past asked w)
    (hp : past ⊆ past') (ha : asked ⊆ asked') : Carries past past' asked asked' w w :=
  ⟨grows_self hp ha, hacc.self hp ha, hsided.carry hp ha fun _ he _ => he⟩

/-- What the web leaves: it registers a file, of a dispute on file, or nothing. -/
theorem web_change {op : WebOp} {f : Fate Supply} {a : Except Err op.Ans}
    (he : backend.exec op f u = some (a, w)) : w = u ∨ ∃ d id, op = .evidenceCreate d ∧
      d.disputeId.all (hasDispute u) = true ∧ w.core = u.core ∧ w.sessions = u.sessions ∧
      w.accounts.chatIdentities = u.accounts.chatIdentities ∧
      w.accounts.evidence.rows = u.accounts.evidence.rows ++ [d.row id] := by
  rcases Backend.exec_cases he with ⟨rfl, -⟩ | ⟨s, -, -, rfl, -⟩
  · exact .inl rfl
  · cases op with
    | evidenceFindUnique id =>
        simp only [backend, effect]
        split
        · exact .inl rfl
        · split <;> exact .inl rfl
    | evidenceCreate d =>
        simp only [backend, effect]
        split
        · rename_i hexists
          split
          · exact .inl rfl
          · rename_i evidence hcreate
            exact .inr ⟨d, s.id, rfl, hexists, rfl, rfl, rfl, Table.rows_create hcreate⟩
        · exact .inl rfl
    | _ => exact .inl rfl

/-- **An operation of the web** keeps everything accounted for. -/
theorem carries_web {op : WebOp} {f : Fate Supply} {a : Except Err op.Ans} {c : Call} {h : Hist}
    (hacc : Accounted past asked u) (hsided : Sided past asked u)
    (hknow : ∀ e ∈ inner h, Knows past u e) (hc : c ∈ asked) (hjust : Justified c h (.web op))
    (he : backend.exec op f u = some (a, w)) : Carries past (w :: past) asked asked u w := by
  rcases web_change he with rfl | ⟨d, id, rfl, hexists, hcore, hsessions, hidentities, hrows⟩
  · exact carries_self hacc hsided (List.subset_cons_self _ _) (List.Subset.refl _)
  · have hg : Grows past (w :: past) asked asked u w :=
      ⟨List.subset_cons_self _ _, List.Subset.refl _, fun hf => hcore ▸ hf,
        fun i hi => ⟨i, hidentities ▸ hi, rfl, SameUser.refl _⟩⟩
    refine ⟨hg, hacc.carry hg (fun d hd => ⟨d, hcore ▸ hd, rfl, rfl, rfl⟩) (fun e he => ?_) hsessions,
      hsided.carry hg.past hg.asked fun _ he _ => hcore ▸ he⟩
    rw [Table.mem_def, hrows] at he
    rcases List.mem_append.mp he with he | he
    · exact .inl he
    · obtain rfl := List.mem_singleton.mp he
      obtain ⟨hby, hnamed⟩ := hjust
      refine .inr ⟨?_, fun dispute hd => ⟨?_, .inr ⟨c, hc, hnamed dispute hd⟩⟩⟩
      · have huploaded : Uploaded past asked d.transactionId d.uploadedBy :=
          hby.imp (fun hs => (SideRead.held hknow hs).tookPart) fun hadmin =>
            ⟨_, SameUser.refl _, c, hc, hadmin⟩
        exact huploaded.mono hg.past hg.asked
      · have hexists : hasDispute u dispute = true := by
          rw [show d.disputeId = some dispute from hd] at hexists
          exact hexists
        obtain ⟨d', hd', hid⟩ := List.any_eq_true.mp hexists
        exact ⟨d'.transactionId, hg.filed (Dialog.filed_iff.mpr ⟨d', hd', beq_iff_eq.mp hid, rfl⟩)⟩

/-- The rows of a list that read the same. -/
theorem exists_of_map_eq {α β : Type} {f : α → β} {l l' : List α} (h : l'.map f = l.map f) {a : α}
    (ha : a ∈ l') : ∃ b ∈ l, f b = f a :=
  List.mem_map.mp (h ▸ List.mem_map_of_mem ha)

theorem drift_preserves {m : Move} (hm : drift m u = some w) :
    Preserves u w ∧ w.sessions = u.sessions := by
  unfold drift at hm
  dsimp only at hm
  split at hm
  · cases hm
    exact ⟨‹_›, rfl⟩
  · cases hm

/-- **What the rest of the system does** keeps everything accounted for. -/
theorem carries_drift (hacc : Accounted past asked u) (hsided : Sided past asked u) {m : Move}
    (hm : drift m u = some w) : Carries past (w :: past) asked asked u w := by
  obtain ⟨hkeep, hsessions⟩ := drift_preserves hm
  have hg : Grows past (w :: past) asked asked u w := by
    refine ⟨List.subset_cons_self _ _, List.Subset.refl _, fun {id t} hf => ?_, fun i hi => ?_⟩
    · obtain ⟨d, hd, rfl, rfl⟩ := Dialog.filed_iff.mp hf
      obtain ⟨d', hd', heq⟩ := exists_of_map_eq hkeep.disputes.symm hd
      simp only [Prod.mk.injEq] at heq
      exact Dialog.filed_iff.mpr ⟨d', hd', heq.1, heq.2.1⟩
    · exact ⟨i, Table.mem_def.mpr (hkeep.chatIdentities ▸ hi), rfl, SameUser.refl _⟩
  refine ⟨hg, hacc.carry hg (fun d hd => ?_) (fun e he => .inl ?_) hsessions,
    hsided.carry hg.past hg.asked fun e he hraised => ?_⟩
  · obtain ⟨d₀, hd₀, heq⟩ := exists_of_map_eq hkeep.disputes hd
    simp only [Prod.mk.injEq] at heq
    exact ⟨d₀, hd₀, heq.1.symm, heq.2.1.symm, heq.2.2.symm⟩
  · exact Table.mem_def.mpr (hkeep.evidence ▸ he)
  · have hmem := List.mem_filter.mpr ⟨he, hraised⟩
    rw [hkeep.timeline] at hmem
    exact (List.mem_filter.mp hmem).1

/-! ## Runs -/

/-- Runs in any company, with the worlds they pass. -/
abbrev Passing (x : Config (entrances env)) (past : List World) : Prop :=
  Passes (fun _ _ => true) ⟨Dialog.World.initial, []⟩ x past

/-- The calls that have arrived. -/
def calls (x : Config (entrances env)) : List Call := x.procs.map Process.call

/-- The file that was read was stored, with the sides its transaction had. -/
def FileSeen (past : List World) (e : Event Op.Ans Err) : Prop :=
  ∀ id ev sellerId buyerId, e = ⟨.web (.evidenceFindUnique id), .ok (some (ev, sellerId, buyerId))⟩ →
    ∃ w ∈ past, ev ∈ w.accounts.evidence ∧ ev.id = id ∧ ∃ t ∈ w.core.transactions,
      t.id = ev.transactionId ∧ t.sellerId = sellerId ∧ t.buyerId = buyerId

/-- Everything is accounted for, and every call knows what it read. -/
structure Sound (past : List World) (x : Config (entrances env)) : Prop where
  accounted : Accounted past (calls x) x.world
  sided : Sided past (calls x) x.world
  knows : ∀ p ∈ x.procs, ∀ e ∈ inner p.hist, Knows past x.world e
  files : ∀ p ∈ x.procs, ∀ e ∈ p.hist, FileSeen past e

/-- What a call in progress still promises. -/
theorem keeps_of_reaches {x : Config (entrances env)}
    (hx : Reaches Guard.free ⟨Dialog.World.initial, []⟩ x) {p : Process (entrances env)}
    (hp : p ∈ x.procs) {prog : Program Reply} (hprog : p.prog = some prog) :
    Keeps p.call (fun _ h => p.call.Cleared h) prog p.hist :=
  Reaches.along (R := fun (c : Call) r h => ∀ a, r = .ok a → c.Cleared h) answers_exec
    (fun {c} {_} _ => code_justified env c) hx p hp _ hprog

/-- A call that is in progress, or was. -/
theorem mem_calls {x : Config (entrances env)} {p : Process (entrances env)} (hp : p ∈ x.procs) :
    p.call ∈ calls x := List.mem_map_of_mem hp

/-- A process that moves has the same call. -/
theorem calls_eq {x y : Config (entrances env)} {i : Nat} {p q : Process (entrances env)}
    (hp : x.procs[i]? = some p) (hprocs : y.procs = x.procs.set i q) (hcall : q.call = p.call) :
    calls y = calls x := by
  obtain ⟨hi, rfl⟩ := List.getElem?_eq_some_iff.mp hp
  rw [calls, calls, hprocs, List.map_set, hcall, ← List.getElem_map Process.call,
    List.set_getElem_self]
  simpa using hi

/-- What is answered is known. -/
def Learns (past : List World) (w : World) (e : Event Op.Ans Err) : Prop :=
  (∀ e', dialogEvent e = some e' → Knows past w e') ∧ FileSeen past e

theorem FileSeen.mono (hp : past ⊆ past') {e : Event Op.Ans Err} (h : FileSeen past e) :
    FileSeen past' e := by
  intro id ev sellerId buyerId he
  obtain ⟨w, hw, hseen⟩ := h id ev sellerId buyerId he
  exact ⟨w, hp hw, hseen⟩

/-- What was known stays known. -/
theorem Sound.next {x y : Config (entrances env)} (hs : Sound past x)
    (hc : Carries past past' (calls x) (calls y) x.world y.world)
    (hhist : ∀ q ∈ y.procs, q.hist = [] ∨ ∃ p ∈ x.procs, q.hist = p.hist ∨
      ∃ e, q.hist = e :: p.hist ∧ Learns past' y.world e) : Sound past' y where
  accounted := hc.accounted
  sided := hc.sided
  knows q hq e he := by
    rcases hhist q hq with hnil | ⟨p, hp, hsame | ⟨e₀, hcons, hknow, -⟩⟩
    · rw [hnil] at he
      cases he
    · rw [hsame] at he
      exact (hs.knows p hp e he).grows hc.grows
    · rw [hcons] at he
      obtain ⟨e₁, he₁, heq⟩ := List.mem_filterMap.mp he
      rcases List.mem_cons.mp he₁ with rfl | he₁
      · exact hknow e heq
      · exact (hs.knows p hp e (List.mem_filterMap.mpr ⟨e₁, he₁, heq⟩)).grows hc.grows
  files q hq e he := by
    rcases hhist q hq with hnil | ⟨p, hp, hsame | ⟨e₀, hcons, -, hseen⟩⟩
    · rw [hnil] at he
      cases he
    · rw [hsame] at he
      exact (hs.files p hp e he).mono hc.grows.past
    · rw [hcons] at he
      rcases List.mem_cons.mp he with rfl | he
      · exact hseen
      · exact (hs.files p hp e he).mono hc.grows.past

/-- The file that is read is stored, and so is its transaction. -/
theorem fileSeen_exec {op : WebOp} {f : Fate Supply} {a : Except Err op.Ans} (hu : u ∈ past)
    (he : backend.exec op f u = some (a, w)) : FileSeen past ⟨.web op, a⟩ := by
  rintro id ev sellerId buyerId heq
  cases heq
  obtain ⟨s, -, heff⟩ := Backend.exec_ok he
  simp only [backend, effect] at heff
  split at heff
  · cases Except.ok.inj (Prod.ext_iff.mp heff).1
  · rename_i e hfind
    split at heff
    · cases (Prod.ext_iff.mp heff).1
    · rename_i t hfound
      cases Except.ok.inj (Prod.ext_iff.mp heff).1
      obtain ⟨hmem, hid⟩ := Table.find_spec hfind
      obtain ⟨ht, htid⟩ := Table.find_spec hfound
      exact ⟨u, hu, hmem, beq_iff_eq.mp hid, t, ht, beq_iff_eq.mp htid, rfl, rfl⟩

/-- **One operation.** -/
theorem carries_exec {op : Op} {o : Choice} {a : Except Err op.Ans} {c : Call} {h : Hist}
    (hu : u ∈ past) (hacc : Accounted past asked u) (hsided : Sided past asked u)
    (hknow : ∀ e ∈ inner h, Knows past u e) (hc : c ∈ asked) (hjust : Justified c h op)
    (he : exec op o u = some (a, w)) :
    Carries past (w :: past) asked asked u w ∧ Learns (w :: past) w ⟨op, a⟩ := by
  cases op with
  | web op =>
      cases o with
      | dialog f => cases he
      | web f =>
          refine ⟨carries_web hacc hsided hknow hc hjust he, fun _ he' => (by cases he'), ?_⟩
          exact fileSeen_exec (List.mem_cons_of_mem w hu) he
  | dialog op =>
      cases o with
      | web f => cases he
      | dialog f =>
          obtain ⟨⟨a₀, w'⟩, hexec, heq⟩ := Option.map_eq_some_iff.mp he
          cases heq
          have hallowed : Allowed asked (inner h) op := hjust.imp id fun hasks => by
            obtain ⟨t, user, hcomplains, hcomplaint⟩ := hasks
            exact ⟨t, user, ⟨c, hc, hcomplains⟩, hcomplaint⟩
          have hacc' := accounted_dialog hacc hknow hallowed hexec
          refine ⟨⟨grows_dialog hexec, hacc', sided_dialog hsided hknow hallowed hexec⟩, ?_, ?_⟩
          · rintro _ ⟨⟩
            cases a₀ <;> exact knows_dialog hu hacc' hexec
          · rintro id ev sellerId buyerId heq
            cases heq

/-- **One step.** -/
theorem Sound.step {x y : Config (entrances env)} {l : Label (entrances env)}
    (hx : Reaches Guard.free ⟨Dialog.World.initial, []⟩ x) (hpast : x.world ∈ past)
    (hs : Sound past x) (hl : x.Step y l) : Sound (y.world :: past) y := by
  cases hl with
  | @arrive c hadm hw hprocs =>
      have hcalls : calls x ⊆ calls y := by
        rw [calls, calls, hprocs, List.map_append]
        exact List.subset_append_left _ _
      have hcarries : Carries past (y.world :: past) (calls x) (calls y) x.world y.world := by
        rw [hw]
        exact carries_self hs.accounted hs.sided (List.subset_cons_self _ _) hcalls
      refine hs.next hcarries fun q hq => ?_
      rw [hprocs] at hq
      rcases List.mem_append.mp hq with hq | hq
      · exact .inr ⟨q, hq, .inl rfl⟩
      · obtain rfl := List.mem_singleton.mp hq
        exact .inl rfl
  | @perform i choice p op k a hp hk he hprocs =>
      have hmem := List.mem_of_getElem? hp
      obtain ⟨hcarries, hlearns⟩ := carries_exec hpast hs.accounted hs.sided (hs.knows p hmem)
        (mem_calls hmem) (keeps_of_reaches hx hmem hk).1 he
      refine hs.next (calls_eq hp hprocs rfl ▸ hcarries) fun q hq => ?_
      rw [hprocs] at hq
      rcases List.mem_or_eq_of_mem_set hq with hq | rfl
      · exact .inr ⟨q, hq, .inl rfl⟩
      · exact .inr ⟨p, hmem, .inr ⟨⟨op, a⟩, rfl, hlearns⟩⟩
  | @crash i p hp hw hprocs =>
      have hmem := List.mem_of_getElem? hp
      have hcalls : calls x ⊆ calls y := calls_eq hp hprocs rfl ▸ List.Subset.refl _
      have hcarries : Carries past (y.world :: past) (calls x) (calls y) x.world y.world := by
        rw [hw]
        exact carries_self hs.accounted hs.sided (List.subset_cons_self _ _) hcalls
      refine hs.next hcarries fun q hq => ?_
      rw [hprocs] at hq
      rcases List.mem_or_eq_of_mem_set hq with hq | rfl
      · exact .inr ⟨q, hq, .inl rfl⟩
      · exact .inr ⟨p, hmem, .inl rfl⟩
  | @drift m hm hprocs =>
      have hcarries := carries_drift hs.accounted hs.sided hm
      have hcalls : calls y = calls x := congrArg (List.map Process.call) hprocs
      exact hs.next (hcalls ▸ hcarries) fun q hq => .inr ⟨q, hprocs ▸ hq, .inl rfl⟩

theorem sound_run {x : Config (entrances env)} (hx : Passing x past) : Sound past x := by
  refine hx.invariant (I := fun past x => Sound past x) ?_ fun hreach hpast hs _ hl =>
    hs.step hreach hpast (Config.next_step hl)
  exact {
    accounted := ⟨fun _ h => (by cases h), fun _ h => (by cases h), fun _ h => (by cases h),
      fun _ h => (by cases h)⟩
    sided := fun _ h => (by cases h)
    knows := fun _ h => (by cases h)
    files := fun _ h => (by cases h) }

/-- **Everything is accounted for** in every run: a dispute and a file come from one who sold or bought in
the transaction, from an administrator's upload, or from a complaint over the web; a file is attached to a
dispute of its own transaction unless a request of the web named another; a chat remembers disputes of its
owner only. -/
theorem accounted_run {x : Config (entrances env)} (hx : Passing x past) :
    Accounted past (calls x) x.world :=
  (sound_run hx).accounted

/-- **Every line that a side makes names that side,** in every run: a delivery its seller, a confirmation
its buyer, a complaint one of them or whoever complained over the web. -/
theorem sided_run {x : Config (entrances env)} (hx : Passing x past) :
    Sided past (calls x) x.world :=
  (sound_run hx).sided

/-- Whom a call is taken from, in the worlds passed. -/
def Call.Permitted (past : List World) (c : Call) : Prop :=
  (∀ d, c.demand = some d → Held past d.side d.transactionId d.claims.sub ∨
    d.admin = true ∧ isAdmin d.claims = true) ∧
  ∀ claims evidenceId, c = .download claims evidenceId → isAdmin claims = true ∨
    ∃ w ∈ past, ∃ ev ∈ w.accounts.evidence, ev.id = evidenceId ∧
      isSide .either w ev.transactionId claims.sub = true

/-- **A request that is answered was permitted,** in every run: its sender was on the side of the
transaction it needs, or is an administrator where it only reads or files. -/
theorem permitted_run {x : Config (entrances env)} (hx : Passing x past) {p : Process (entrances env)}
    (hp : p ∈ x.procs) {reply : Reply} (hreply : p.prog = some (.done (.ok reply))) :
    p.call.Permitted past := by
  have hsound := sound_run hx
  have hcleared : p.call.Cleared p.hist :=
    keeps_of_reaches hx.follows.reaches hp hreply reply rfl
  refine ⟨fun d hd => (hcleared.1 d hd).imp (SideRead.held (hsound.knows p hp)) fun ha => ha,
    fun claims evidenceId hcall => ?_⟩
  rcases hcleared.2 claims evidenceId hcall with ⟨ev, sellerId, buyerId, hmem, hparty⟩ | hadmin
  · obtain ⟨w, hw, hev, hid, t, ht, htid, rfl, rfl⟩ := hsound.files p hp _ hmem _ _ _ _ rfl
    exact .inr ⟨w, hw, ev, hev, hid, List.any_eq_true.mpr ⟨t, ht, by
      simpa [Side.holds, isParticipant, htid] using hparty⟩⟩
  · exact .inl hadmin

namespace Demo

def settings : Dialog.Env where
  gateway := ⟨[], fun _ _ _ => true⟩
  linking := ⟨fun code => code, fun code => code, 8, 900, 5, "chat.example"⟩
  otp := ⟨fun code => code, 6, 300, 5⟩
  chatSessionTtlSeconds := 900

def buyer : Uuid := ⟨"00000000-0000-4000-8009-000000000001", by decide⟩

def seller : Uuid := ⟨"00000000-0000-4000-8009-000000000002", by decide⟩

/-- A paid sale. -/
def sale : Transaction where
  id := buyer
  publicLinkId := "phone"
  sellerId := seller
  buyerId := some buyer
  title := "Phone"
  description := none
  amount := 1000
  currency := "NGN"
  status := .paymentProtected
  releaseRule := .buyerConfirmation
  expectedDeliveryDate := none
  feeModel := .sellerPays
  feeAmount := 0
  merchantId := none
  origin := .web

/-- The sale comes into the world. -/
def sold : Move where
  core := { Meduman.World.initial with transactions := ⟨[sale], by decide⟩ }
  accounts := .initial
  otp := .initial
  gateway := .initial

def serve (i : Nat) (id : Uuid) : Label (entrances settings) :=
  .perform i (.dialog (.core (.served { id := id })))

/-- The buyer complains over the web. -/
def complaint : List (Label (entrances settings)) :=
  [.drift sold, .arrive (.raise ⟨buyer, none⟩ buyer ⟨.damaged, none, none⟩), serve 0 seller,
    serve 0 seller, serve 0 seller]

/-- The seller starts the delivery over the web. -/
def delivery : List (Label (entrances settings)) :=
  [.drift sold, .arrive (.startDelivery ⟨seller, none⟩ buyer), serve 0 seller, serve 0 seller,
    serve 0 seller]

/-- The call was answered. -/
def isAnswered (p : Process (entrances settings)) : Bool :=
  match p.prog with
  | some (.done (.ok _)) => true
  | _ => false

theorem answered_of_isAnswered {p : Process (entrances settings)} (h : isAnswered p = true) :
    ∃ reply, p.prog = some (.done (.ok reply)) := by
  unfold isAnswered at h
  split at h
  · rename_i reply hreply
    exact ⟨reply, hreply⟩
  · cases h

/-- The seller answers with a picture, named with the complaint. -/
def picture : List (Label (entrances settings)) :=
  [.arrive (.create ⟨seller, none⟩ buyer ⟨"box.png", "image/png", 1, some seller⟩), serve 1 seller,
    serve 1 buyer, .perform 1 (.web (.served ⟨buyer, ""⟩)), .perform 1 (.web (.served ⟨buyer, ""⟩))]

end Demo

set_option maxRecDepth 20000 in
/-- A complaint of the buyer, and a file of the seller. -/
theorem accounted_complaint : ∃ (x : Config (entrances Demo.settings)) (past : List World),
    (∃ d ∈ x.world.core.disputes, d.openedBy = Demo.buyer) ∧
    (∃ e ∈ x.world.accounts.evidence, e.uploadedBy = Demo.seller) ∧
    Accounted past (calls x) x.world := by
  have hrun : ((Config.pass (fun _ _ => true) (Demo.complaint ++ Demo.picture)
      (⟨Dialog.World.initial, []⟩ : Config (entrances Demo.settings)) [Dialog.World.initial]).map
        fun r => decide ((r.1.world.core.disputes.rows.map Dispute.openedBy,
          r.1.world.accounts.evidence.rows.map Linking.Evidence.uploadedBy) =
            ([Demo.buyer], [Demo.seller]))) = some true := by decide
  obtain ⟨⟨x, past⟩, hpass, htest⟩ := Option.map_eq_some_iff.mp hrun
  have hrows := of_decide_eq_true htest
  exact ⟨x, past, (Table.of_map_eq_singleton (congrArg Prod.fst hrows)).1,
    (Table.of_map_eq_singleton (congrArg Prod.snd hrows)).1, accounted_run (passes_of_pass .start hpass)⟩

set_option maxRecDepth 20000 in
/-- A delivery that is started. -/
theorem sided_delivery : ∃ (x : Config (entrances Demo.settings)) (past : List World),
    x.world.core.timeline.map TimelineEvent.type = [timelineType .sellerStartDelivery] ∧
    Sided past (calls x) x.world := by
  have hrun : ((Config.pass (fun _ _ => true) Demo.delivery
      (⟨Dialog.World.initial, []⟩ : Config (entrances Demo.settings)) [Dialog.World.initial]).map
        fun r => decide (r.1.world.core.timeline.map TimelineEvent.type =
          [timelineType .sellerStartDelivery])) = some true := by decide
  obtain ⟨⟨x, past⟩, hpass, htest⟩ := Option.map_eq_some_iff.mp hrun
  exact ⟨x, past, of_decide_eq_true htest, sided_run (passes_of_pass .start hpass)⟩

set_option maxRecDepth 20000 in
/-- Its request, which is answered. -/
theorem permitted_delivery : ∃ (x : Config (entrances Demo.settings)) (past : List World)
    (p : Process (entrances Demo.settings)), p ∈ x.procs ∧ (∃ reply, p.prog = some (.done (.ok reply))) ∧
      p.call.Permitted past := by
  have hrun : ((Config.pass (fun _ _ => true) Demo.delivery
      (⟨Dialog.World.initial, []⟩ : Config (entrances Demo.settings)) [Dialog.World.initial]).map
        fun r => r.1.procs.any Demo.isAnswered) = some true := by decide
  obtain ⟨⟨x, past⟩, hpass, htest⟩ := Option.map_eq_some_iff.mp hrun
  obtain ⟨p, hp, hanswered⟩ := List.any_eq_true.mp htest
  obtain ⟨reply, hreply⟩ := Demo.answered_of_isAnswered hanswered
  exact ⟨x, past, p, hp, ⟨reply, hreply⟩, permitted_run (passes_of_pass .start hpass) hp hreply⟩

end Meduman.Web
