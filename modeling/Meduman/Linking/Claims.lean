import Meduman.Effect.Task
import Meduman.Linking.Requests

/-!
# Who works on a link request

A call checks a request when it reads it, and writes the outcome after the merge. In between others may
read the same request, a mint may supersede it, and it may expire.

* `requestOf`, `merges`, `MergedWith` : the request a call read, and the merges it made with it
* `Phase.request`, `claims` : the request a call works on, or has merged with and not recorded
* `orderly` : nobody reads what another claims, and mints keep out of each other's way
* `tallied_of_reaches` : a call makes one merge at most
* `unclaimed_of_completed` : calls that ended stand in nobody's way
* `Settled`, **`settled_step`** : then each request has one claimant, who knows it and alone merges
-/

set_option autoImplicit false

namespace Meduman.Linking

open Effect Chat

/-! ## The request of a call -/

def requestRead : Event Op.Ans Err → Option Uuid
  | ⟨.linkRequestFindByHash _, .ok (some r)⟩ | ⟨.linkRequestFindUnique _, .ok (some r)⟩ => some r.id
  | _ => none

/-- The request a call read. -/
def requestOf (h : Hist) : Option Uuid := h.findSome? requestRead

def isMerge : Event Op.Ans Err → Bool
  | ⟨.mergeAccounts .., .ok _⟩ => true
  | _ => false

/-- The merges a call made. -/
def merges (h : Hist) : Nat := h.countP isMerge

/-- The call made a merge with this request. -/
def MergedWith (h : Hist) (id : Uuid) : Prop := 0 < merges h ∧ requestOf h = some id

instance (h : Hist) (id : Uuid) : Decidable (MergedWith h id) :=
  inferInstanceAs (Decidable (_ ∧ _))

/-- The request a call is working on. -/
def Phase.request : Phase → Option ChatLinkRequest
  | .typed r | .checked r | .review r | .promoted r | .merged r => some r
  | _ => none

/-- The request a call merged with, as long as that is not recorded. -/
def Phase.unrecorded : Phase → Option ChatLinkRequest
  | .merged r | .astray r => some r
  | _ => none

/-- The request a call merged with. -/
def Phase.used : Phase → Option ChatLinkRequest
  | .merged r | .astray r | .linked r => some r
  | _ => none

variable {env : Env}

/-- The call has operations left. -/
def running (p : Process (service env)) : Bool :=
  match p.prog with
  | some (.call _ _) => true
  | _ => false

/-- The call works on this request. -/
def handles (p : Process (service env)) (id : Uuid) : Bool :=
  running p && (phase p.hist).request.any fun r => r.id == id

/-- The call works on this request, or has merged with it and not recorded that. -/
def claims (p : Process (service env)) (id : Uuid) : Bool :=
  handles p id || (phase p.hist).unrecorded.any fun r => r.id == id

/-- The call has superseded the codes of this account, and not yet created its own. -/
def clears (p : Process (service env)) (targetUserId : Uuid) : Bool :=
  running p && phase p.hist == .clearing && match p.call with
    | .mint t => t == targetUserId
    | _ => false

/-- No call claims this request. -/
def unclaimed (x : Config (service env)) (id : Uuid) : Bool := x.procs.all fun p => !claims p id

/-- No mint is about to create a code of this account's. -/
def unminted (x : Config (service env)) (targetUserId : Uuid) : Bool :=
  x.procs.all fun p => !clears p targetUserId

/-- A request is read as live when no other call claims it, and typed when nobody typed it before. A mint
supersedes what no call works on, and while no other mint of the account is between superseding and
creating; nor is a request promoted then, or while the account has a code. A merge's answer arrives, and
the clock leaves a checked request time to be merged with. -/
def orderly (env : Env) : Policy (service env) := fun x l =>
  match l with
  | .perform i o => match x.pending i with
      | some (_, ⟨.linkRequestFindByHash codeHash, _⟩) =>
          (World.linkRequests x.world).rows.all fun r => r.codeHash != codeHash ||
            r.status != .pending || (r.consumedAt.isNone && unclaimed x r.id)
      | some (_, ⟨.linkRequestFindUnique id, _⟩) =>
          (World.linkRequests x.world).rows.all fun r => r.id != id ||
            r.status != .pendingReview || unclaimed x r.id
      | some (_, ⟨.linkRequestCancel target _, _⟩) => unminted x target &&
          (World.linkRequests x.world).rows.all fun r => !isPendingOf target r ||
            x.procs.all fun p => !handles p r.id
      | some (_, ⟨.linkRequestUpdate id .promote, _⟩) =>
          (World.linkRequests x.world).rows.all fun r => r.id != id ||
            (unminted x r.targetUserId &&
              (World.linkRequests x.world).rows.all fun c => !isPendingOf r.targetUserId c)
      | some (_, ⟨.mergeAccounts .., _⟩) => match o with
          | .lost .. => false
          | _ => true
      | _ => true
  | .drift (.tick elapsed) => x.procs.all fun p => !running p || match phase p.hist with
      | .checked r => World.clock x.world + elapsed < r.expiresAt
      | _ => true
  | _ => true

/-! ## What one operation adds to a history -/

variable {e : Event Op.Ans Err} {h : Hist} {ph : Phase} {r : ChatLinkRequest} {id : Uuid}

/-- The request an event reads as live. -/
def readLive : Event Op.Ans Err → Option ChatLinkRequest
  | ⟨.linkRequestFindByHash _, .ok (some r)⟩ => if r.status = .pending then some r else none
  | ⟨.linkRequestFindUnique _, .ok (some r)⟩ => if r.status = .pendingReview then some r else none
  | _ => none

/-- The operation leaves the requests alone, or counts an attempt. -/
def Op.Counts : Op → Prop
  | .linkRequestCancel .. | .linkRequestCreate _ => False
  | .linkRequestUpdate _ d => d = .countAttempt
  | _ => True

/-- An operation that leaves the requests alone makes a call work on no other request, unless it reads
one. -/
theorem request_counts (hop : e.op.Counts) (hr : (ph.step e).request = some r) :
    ph.request = some r ∨ ph = .idle ∧ readLive e = some r := by
  revert hr
  fun_cases Phase.step ph e <;> intro hr <;> simp_all [Phase.request, readLive, Op.Counts]

/-- **How a call comes to work on a request:** it reads it live, or worked on it before, or has just
promoted it. -/
theorem request_step (hJ : Promises h e.op) (hr : (phase (e :: h)).request = some r) :
    (phase h = .idle ∧ readLive e = some r) ∨
    (e.op.Counts ∧ (phase h).request = some r) ∨
    ∃ r₀, phase h = .review r₀ ∧ r = LinkRequestUpdate.promote.apply r₀ ∧
      e = ⟨.linkRequestUpdate r₀.id .promote, .ok ()⟩ := by
  have hcounts (hop : e.op.Counts) : (phase h = .idle ∧ readLive e = some r) ∨
      (e.op.Counts ∧ (phase h).request = some r) :=
    (request_counts hop hr).elim (fun hold => .inr ⟨hop, hold⟩) .inl
  obtain ⟨op, a⟩ := e
  cases op with
  | linkRequestCancel target t =>
      replace hJ : phase h = .idle := hJ
      cases a <;> simp [hJ, Phase.step, Phase.request] at hr
  | linkRequestCreate d =>
      replace hJ : phase h = .clearing := hJ
      simp [hJ, Phase.step, Phase.request] at hr
  | linkRequestUpdate id d =>
      cases d with
      | countAttempt => exact (hcounts rfl).imp_right .inl
      | consumeAs data now =>
          obtain ⟨r₀, i, -, ⟨hphase, -⟩ | ⟨hphase, -⟩, -⟩ := hJ <;>
            cases a <;> simp [hphase, Phase.step, Phase.request] at hr
      | promote =>
          obtain ⟨r₀, hphase, rfl⟩ := hJ
          cases a with
          | error e => simp [hphase, Phase.step, Phase.request] at hr
          | ok _ =>
              simp only [phase_cons, hphase, Phase.step, Phase.request, Option.some.injEq] at hr
              exact .inr (.inr ⟨r₀, hphase, hr.symm, rfl⟩)
      | reject by' now =>
          obtain ⟨r₀, hphase, -⟩ := hJ
          cases a <;> simp [hphase, Phase.step, Phase.request] at hr
      | complete by' now =>
          obtain ⟨r₀, hphase, -⟩ := hJ
          cases a <;> simp [hphase, Phase.step, Phase.request] at hr
  | _ => exact (hcounts trivial).imp_right .inl

/-- What a call has not recorded it has just merged with, or had not recorded before. -/
theorem unrecorded_step (hr : (phase (e :: h)).unrecorded = some r) :
    (phase h).unrecorded = some r ∨ isMerge e = true ∧ (phase h).request = some r := by
  rw [phase_cons] at hr
  generalize phase h = ph at hr ⊢
  revert hr
  fun_cases Phase.step ph e <;> intro hr <;> simp_all [Phase.request, Phase.unrecorded, isMerge]

/-- What a call merged with it merged with before, or does so now. -/
theorem used_step (hr : (phase (e :: h)).used = some r) :
    (phase h).used = some r ∨ isMerge e = true ∧ (phase h).request = some r := by
  rw [phase_cons] at hr
  generalize phase h = ph at hr ⊢
  revert hr
  fun_cases Phase.step ph e <;> intro hr <;> simp_all [Phase.request, Phase.used, isMerge]

/-! ## One request, one merge each -/

/-- What was promised before the newest operation. -/
def Promised : Hist → Prop
  | [] => True
  | e :: h => Promises h e.op

/-- The request a call read, or came to a decision on. -/
def Phase.named : Phase → Option ChatLinkRequest
  | .linked r | .astray r => some r
  | ph => ph.request

/-- The phase knows which request was read, and whether a merge was made. -/
structure Tallied (h : Hist) : Prop where
  named : ∀ r, (phase h).named = some r → requestOf h = some r.id
  tally : merges h = if (phase h).used.isSome then 1 else 0

theorem requestOf_cons (e : Event Op.Ans Err) (h : Hist) :
    requestOf (e :: h) = (requestRead e).or (requestOf h) := by
  unfold requestOf
  rw [List.findSome?_cons]
  cases requestRead e <;> rfl

theorem named_idle (hph : ph = .idle) (hr : (ph.step e).named = some r) :
    requestRead e = some r.id := by
  revert hr
  fun_cases Phase.step ph e <;> intro hr
  case case1 => subst hph; cases hr
  case case17 => subst hph; cases hr
  all_goals first
    | cases hr <;> rfl
    | cases hph

theorem named_later (hph : ph ≠ .idle) (hr : (ph.step e).named = some r) :
    ∃ r₀, ph.named = some r₀ ∧ r₀.id = r.id := by
  revert hr
  fun_cases Phase.step ph e <;> intro hr
  case case1 => exact ⟨r, hr, rfl⟩
  case case17 => exact ⟨r, hr, rfl⟩
  all_goals first
    | exact absurd rfl hph
    | cases hr <;> exact ⟨_, rfl, rfl⟩

/-- Only who works on no request yet reads one. -/
theorem requestRead_eq_none (hJ : Promises h e.op) (hph : phase h ≠ .idle) : requestRead e = none := by
  obtain ⟨op, a⟩ := e
  cases op with
  | linkRequestFindByHash codeHash => exact absurd hJ.1 hph
  | linkRequestFindUnique id => exact absurd hJ hph
  | _ => rfl

theorem used_same (he : isMerge e = false) : (ph.step e).used.isSome = ph.used.isSome := by
  fun_cases Phase.step ph e <;> simp_all [Phase.used, isMerge]

theorem tallied_nil : Tallied [] := ⟨fun r hr => (Option.some_ne_none r hr.symm).elim, rfl⟩

theorem tallied_cons (hJ : Promises h e.op) (hT : Tallied h) : Tallied (e :: h) where
  named r hr := by
    rw [requestOf_cons]
    by_cases hph : phase h = .idle
    · rw [named_idle hph hr]
      rfl
    · obtain ⟨r₀, hr₀, hid⟩ := named_later hph hr
      rw [requestRead_eq_none hJ hph, hT.named r₀ hr₀, hid]
      rfl
  tally := by
    cases he : isMerge e with
    | false =>
        rw [merges, List.countP_cons, he, phase_cons, used_same he]
        exact hT.tally
    | true =>
        rw [merges, List.countP_cons, he, phase_cons]
        obtain ⟨op, a⟩ := e
        cases op with
        | mergeAccounts source target opts =>
            cases a with
            | error e => cases he
            | ok report =>
                have hnone := hT.tally
                obtain ⟨r, -, ⟨hphase, -⟩ | ⟨hphase, -⟩⟩ := hJ <;> rw [hphase] at hnone ⊢ <;>
                  exact congrArg (· + 1) hnone
        | _ => cases he

/-- **A call makes one merge at most,** with the request it read. -/
theorem tallied_of_reaches {x : Config (service env)} (hx : Reachable env x) :
    ∀ p ∈ x.procs, Tallied p.hist :=
  Reaches.histories (J := fun _ => Promised) (T := fun _ => Tallied)
    (fun hx _ hp _ _ hk _ => promises_of_reaches hx hp hk) (fun _ => tallied_nil)
    (fun _ _ _ hJ hT => tallied_cons hJ hT) hx

theorem Tallied.merges_le (hT : Tallied h) : merges h ≤ 1 := by
  rw [hT.tally]
  split <;> omega

/-- Who made a merge is past it. -/
theorem Tallied.used (hT : Tallied h) (hm : MergedWith h id) :
    ∃ r, (phase h).used = some r ∧ r.id = id := by
  obtain ⟨hpos, hreq⟩ := hm
  have hsome : (phase h).used.isSome = true := by
    rw [hT.tally] at hpos
    split at hpos
    · assumption
    · cases hpos
  obtain ⟨r, hr⟩ := Option.isSome_iff_exists.mp hsome
  refine ⟨r, hr, Option.some.inj ((hT.named r ?_).symm.trans hreq)⟩
  generalize phase h = ph at hr
  cases ph <;> first | exact hr | cases hr

/-! ## Calls that ended -/

/-- Whether a merge is recorded is unknown only where the record failed. -/
theorem failed_of_astray (hr : phase h = .astray r) :
    ∃ id d err, (⟨.linkRequestUpdate id d, .error err⟩ : Event Op.Ans Err) ∈ h := by
  induction h with
  | nil => cases hr
  | cons e h ih =>
      rw [phase_cons] at hr
      by_cases hbefore : phase h = .astray r
      · obtain ⟨id, d, err, hmem⟩ := ih hbefore
        exact ⟨id, d, err, List.mem_cons_of_mem e hmem⟩
      · have hlast : ∃ id d err, e = ⟨.linkRequestUpdate id d, .error err⟩ := by
          clear ih
          generalize phase h = ph at hr hbefore
          revert hr
          fun_cases Phase.step ph e <;> intro hr <;> simp_all
        obtain ⟨id, d, err, rfl⟩ := hlast
        exact ⟨id, d, err, List.mem_cons_self⟩

/-- The call ended, and every update it made of a request was answered. -/
def Completed (p : Process (service env)) : Prop := (∃ r, p.prog = some (.done r)) ∧
  ∀ id d err, (⟨.linkRequestUpdate id d, .error err⟩ : Event Op.Ans Err) ∉ p.hist

/-- **A call that ended claims nothing:** it recorded the merge it made. -/
theorem claims_of_completed {x : Config (service env)} {p : Process (service env)}
    (hx : Reachable env x) (hp : p ∈ x.procs) (hc : Completed p) (id : Uuid) : claims p id = false := by
  obtain ⟨⟨result, hend⟩, hanswered⟩ := hc
  have hunmerged := unmerged_of_reaches hx hp hend
  have hno : (phase p.hist).unrecorded = none := by
    cases hphase : phase p.hist with
    | merged r => exact absurd hphase (hunmerged r)
    | astray r =>
        obtain ⟨id', d, err, hmem⟩ := failed_of_astray hphase
        exact absurd hmem (hanswered id' d err)
    | _ => rfl
  simp [claims, handles, running, hend, hno]

/-- When every call ended so, nothing keeps the next one from reading a request, or from minting. -/
theorem unclaimed_of_completed {x : Config (service env)} (hx : Reachable env x)
    (hc : ∀ p ∈ x.procs, Completed p) (id : Uuid) : unclaimed x id = true ∧ unminted x id = true := by
  refine ⟨List.all_eq_true.mpr fun p hp => ?_, List.all_eq_true.mpr fun p hp => ?_⟩
  · simp [claims_of_completed hx hp (hc p hp) id]
  · obtain ⟨⟨result, hend⟩, -⟩ := hc p hp
    simp [clears, running, hend]

/-! ## The invariant -/

/-- The request is there as the call knows it, but for the attempts counted. -/
def Has (w : World) (r : ChatLinkRequest) : Prop := ∃ n, { r with attemptCount := n } ∈ w.linkRequests

/-- It was consumed before it expired. -/
def ConsumedInTime (r : ChatLinkRequest) : Prop := ∃ t, r.consumedAt = some t ∧ t < r.expiresAt

/-- What a call knows of the request it works on. -/
def Phase.Sound : Phase → Prop
  | .typed r | .checked r => r.status = .pending ∧ r.consumedAt = none
  | .review r => r.status = .pendingReview ∧ ConsumedInTime r
  | .promoted r => r.status = .pending ∧ ConsumedInTime r
  | .merged r => r.status = .pending
  | _ => True

/-- Each request has one claimant, who knows it; who merged with it was alone to do so. -/
structure Settled (x : Config (service env)) : Prop where
  sole : ∀ {i j : Nat} {p q : Process (service env)} {id : Uuid}, x.procs[i]? = some p →
    x.procs[j]? = some q → claims p id = true → claims q id = true → i = j
  has : ∀ p ∈ x.procs, running p = true → ∀ r, (phase p.hist).request = some r → Has x.world r
  sound : ∀ p ∈ x.procs, (phase p.hist).Sound
  unexpired : ∀ p ∈ x.procs, running p = true → ∀ r, phase p.hist = .checked r →
    World.clock x.world < r.expiresAt
  parked : ∀ r ∈ World.linkRequests x.world, r.status = .pendingReview → ConsumedInTime r
  linked : ∀ p ∈ x.procs, ∀ r, phase p.hist = .linked r →
    ∃ r' ∈ World.linkRequests x.world, r'.id = r.id ∧ r'.status = .completed
  once : ∀ {i j : Nat} {p q : Process (service env)} {r r' : ChatLinkRequest},
    x.procs[i]? = some p → x.procs[j]? = some q → (phase p.hist).used = some r →
    (phase q.hist).used = some r' → r.id = r'.id → i = j

variable {x y : Config (service env)} {l : Label (service env)} {p q : Process (service env)}
  {op : Op} {o : Fate Supply} {i j : Nat}

theorem settled_initial : Settled (⟨World.initial, []⟩ : Config (service env)) where
  sole h := by simp at h
  has _ hp := absurd hp List.not_mem_nil
  sound _ hp := absurd hp List.not_mem_nil
  unexpired _ hp := absurd hp List.not_mem_nil
  parked _ hr := absurd hr (Table.not_mem_empty _)
  linked _ hp := absurd hp List.not_mem_nil
  once h := by simp at h

theorem running_of {k : Except Err op.Ans → Program Reply} (hk : p.prog = some (.call op k)) :
    running p = true := by
  rw [running, hk]

/-- Whoever updates a request works on it, unless it counts an attempt. -/
theorem request_of_update {d : LinkRequestUpdate} (hJ : Promises h (.linkRequestUpdate id d))
    (hd : d ≠ .countAttempt) : ∃ r, (phase h).request = some r ∧ r.id = id := by
  cases d with
  | countAttempt => exact absurd rfl hd
  | consumeAs data now =>
      obtain ⟨r, i, hid, ⟨hphase, -⟩ | ⟨hphase, -⟩, -⟩ := hJ <;> exact ⟨r, by rw [hphase]; rfl, hid⟩
  | promote => obtain ⟨r, hphase, hid⟩ := hJ; exact ⟨r, by rw [hphase]; rfl, hid⟩
  | reject by' now => obtain ⟨r, hphase, hid⟩ := hJ; exact ⟨r, by rw [hphase]; rfl, hid⟩
  | complete by' now => obtain ⟨r, hphase, hid⟩ := hJ; exact ⟨r, by rw [hphase]; rfl, hid⟩

theorem handles_of (hrun : running p = true) (hr : (phase p.hist).request = some r) :
    handles p r.id = true := by
  rw [handles, hrun, hr]
  simp

theorem claims_of (hrun : running p = true) (hr : (phase p.hist).request = some r) :
    claims p r.id = true := by
  rw [claims, handles_of hrun hr]
  rfl

/-- A request someone works on is live or under review. -/
theorem Phase.Sound.open (hs : ph.Sound) (hr : ph.request = some r) :
    r.status = .pending ∨ r.status = .pendingReview := by
  cases ph <;> simp only [Phase.request, Option.some.injEq, reduceCtorEq] at hr <;> subst hr
  · exact .inl hs.1
  · exact .inl hs.1
  · exact .inr hs.1
  · exact .inl hs.1
  · exact .inl hs

/-- What the policy asks of whoever supersedes. -/
theorem orderly_cancel {target : Uuid} {t : Int} {k : Except Err Nat → Program Reply}
    (hP : orderly env x (.perform i o) = true) (hp : x.procs[i]? = some p)
    (hk : p.prog = some (.call (.linkRequestCancel target t) k)) :
    unminted x target = true ∧ ∀ r ∈ World.linkRequests x.world, isPendingOf target r = true →
      ∀ q ∈ x.procs, handles q r.id = false := by
  simp only [orderly, Config.pending_eq hp hk, Bool.and_eq_true] at hP
  refine ⟨hP.1, fun r hr hpending q hq => ?_⟩
  have hrow := List.all_eq_true.mp hP.2 r hr
  rw [hpending, Bool.not_true, Bool.false_or] at hrow
  simpa using List.all_eq_true.mp hrow q hq

/-- **A request someone works on stays as it is,** until they move on. -/
theorem has_frame (hx : Reachable env x) (hI : Settled x) (hP : orderly env x l = true)
    (hs : x.Step y l) (hp : x.procs[j]? = some p) (hrun : running p = true)
    (hr : (phase p.hist).request = some r)
    (hother : ∀ o q op k, l = .perform j o → x.procs[j]? = some q → q.prog = some (.call op k) →
      op.Counts) : Has y.world r := by
  obtain ⟨n, hrow⟩ := hI.has p (List.mem_of_getElem? hp) hrun r hr
  rcases hs.world_cases with hw | ⟨i, o, q, op, k, a, rfl, hq, hk, he, -⟩ | ⟨m, -, hm⟩
  · exact ⟨n, hw ▸ hrow⟩
  · replace he : backend.exec op o x.world = some (a, y.world) := he
    rcases row_kept he hrow with ⟨n', hkept⟩ | ⟨target, t, rfl, hpending⟩ | ⟨d, rfl, hd⟩
    · exact ⟨n', hkept⟩
    · have hno := (orderly_cancel hP hq hk).2 _ hrow hpending p (List.mem_of_getElem? hp)
      exact absurd (handles_of hrun hr) (by rw [hno]; decide)
    · obtain ⟨r', hr', hid⟩ := request_of_update
        (promises_of_reaches hx (List.mem_of_getElem? hq) hk) hd
      have hclaim : claims q r.id = true := hid ▸ claims_of (running_of hk) hr'
      have hself : claims p r.id = true := claims_of hrun hr
      cases hI.sole hq hp hclaim hself
      exact absurd (hother o q _ k rfl hq hk) hd
  · exact ⟨n, (drift_requests hm) ▸ hrow⟩

/-- A request read as live is there, and live. -/
theorem readLive_ok {u w : World} {a : Except Err op.Ans} (he : backend.exec op o u = some (a, w))
    (hread : readLive ⟨op, a⟩ = some r) : r ∈ u.linkRequests ∧ w = u ∧
      (op = .linkRequestFindByHash r.codeHash ∧ r.status = .pending ∨
        op = .linkRequestFindUnique r.id ∧ r.status = .pendingReview) := by
  cases op with
  | linkRequestFindByHash codeHash =>
      rcases a with e | _ | r'
      · cases hread
      · cases hread
      · simp only [readLive, Option.ite_none_right_eq_some, Option.some.injEq] at hread
        obtain ⟨hpending, rfl⟩ := hread
        obtain ⟨hr, rfl, hw⟩ := findByHash_ok he
        exact ⟨hr, hw, .inl ⟨rfl, hpending⟩⟩
  | linkRequestFindUnique id =>
      rcases a with e | _ | r'
      · cases hread
      · cases hread
      · simp only [readLive, Option.ite_none_right_eq_some, Option.some.injEq] at hread
        obtain ⟨hreview, rfl⟩ := hread
        obtain ⟨hr, rfl, hw⟩ := findUnique_ok he
        exact ⟨hr, hw, .inr ⟨rfl, hreview⟩⟩
  | _ => cases hread

/-- What the policy asks of whoever reads a live request. -/
theorem orderly_read {k : Except Err op.Ans → Program Reply} {a : Except Err op.Ans}
    (hP : orderly env x (.perform i o) = true) (hp : x.procs[i]? = some p)
    (hk : p.prog = some (.call op k)) (he : backend.exec op o x.world = some (a, y.world))
    (hread : readLive ⟨op, a⟩ = some r) :
    r ∈ World.linkRequests x.world ∧ World.linkRequests y.world = World.linkRequests x.world ∧
      (∀ q ∈ x.procs, claims q r.id = false) ∧
      (r.status = .pending ∧ r.consumedAt = none ∧ (∃ c, op = .linkRequestFindByHash c) ∨
        r.status = .pendingReview ∧ ∃ id, op = .linkRequestFindUnique id) := by
  obtain ⟨hr, hw, ⟨rfl, hpending⟩ | ⟨rfl, hreview⟩⟩ := readLive_ok he hread
  · simp only [orderly, Config.pending_eq hp hk] at hP
    have hrow := List.all_eq_true.mp hP _ hr
    simp only [hpending, bne_self_eq_false, Bool.false_or, Bool.and_eq_true,
      Option.isNone_iff_eq_none] at hrow
    refine ⟨hr, by rw [hw], fun q hq => ?_, .inl ⟨hpending, hrow.1, _, rfl⟩⟩
    simpa using List.all_eq_true.mp hrow.2 q hq
  · simp only [orderly, Config.pending_eq hp hk] at hP
    have hrow := List.all_eq_true.mp hP _ hr
    simp only [hreview, bne_self_eq_false, Bool.false_or] at hrow
    refine ⟨hr, by rw [hw], fun q hq => ?_, .inr ⟨hreview, _, rfl⟩⟩
    simpa using List.all_eq_true.mp hrow q hq

/-- **How a claim comes about:** it was there before, or a request was just read live. -/
theorem claims_step (hx : Reachable env x) (hs : x.Step y l) (hq : y.procs[j]? = some q)
    (hclaim : claims q id = true) :
    (∃ p, x.procs[j]? = some p ∧ claims p id = true) ∨
    ∃ p o op k a r, l = .perform j o ∧ x.procs[j]? = some p ∧ p.prog = some (.call op k) ∧
      backend.exec op o x.world = some (a, y.world) ∧ readLive ⟨op, a⟩ = some r ∧ r.id = id := by
  cases hs with
  | arrive hadm hw hprocs =>
      rw [hprocs, List.getElem?_append] at hq
      split at hq
      · exact .inl ⟨q, hq, hclaim⟩
      · rw [List.mem_singleton.mp (List.mem_of_getElem? hq)] at hclaim
        simp [claims, handles, Phase.request, Phase.unrecorded] at hclaim
  | @crash i p hp hw hprocs =>
      rw [hprocs] at hq
      rcases getElem?_set_cases hp hq with ⟨rfl, rfl⟩ | ⟨-, hq⟩
      · refine .inl ⟨p, hp, ?_⟩
        simp only [claims, handles, running, Bool.false_and, Bool.false_or] at hclaim
        rw [claims, hclaim, Bool.or_true]
      · exact .inl ⟨q, hq, hclaim⟩
  | drift hm hprocs => exact .inl ⟨q, hprocs ▸ hq, hclaim⟩
  | @perform i o p op k a hp hk he hprocs =>
      rw [hprocs] at hq
      rcases getElem?_set_cases hp hq with ⟨rfl, rfl⟩ | ⟨-, hq⟩
      · have hJ := promises_of_reaches hx (List.mem_of_getElem? hp) hk
        have hbefore {r : ChatLinkRequest} (hr : (phase p.hist).request = some r)
            (hid : r.id = id) : claims p id = true := hid ▸ claims_of (running_of hk) hr
        rw [claims, Bool.or_eq_true] at hclaim
        rcases hclaim with hhandles | hunrecorded
        · rw [handles, Bool.and_eq_true] at hhandles
          obtain ⟨r, hr, hid⟩ := (Option.any_eq_true _ _).mp hhandles.2
          rcases request_step (e := ⟨op, a⟩) hJ hr with ⟨-, hread⟩ | ⟨-, hr⟩ | ⟨r₀, hphase, rfl, -⟩
          · exact .inr ⟨p, o, op, k, a, r, rfl, hp, hk, he, hread, beq_iff_eq.mp hid⟩
          · exact .inl ⟨p, hp, hbefore hr (beq_iff_eq.mp hid)⟩
          · exact .inl ⟨p, hp, hbefore (r := r₀) (by rw [hphase]; rfl) (beq_iff_eq.mp hid)⟩
        · obtain ⟨r, hr, hid⟩ := (Option.any_eq_true _ _).mp hunrecorded
          rcases unrecorded_step hr with hr | ⟨-, hr⟩
          · refine .inl ⟨p, hp, ?_⟩
            rw [claims, hr]
            simp [beq_iff_eq.mp hid]
          · exact .inl ⟨p, hp, hbefore hr (beq_iff_eq.mp hid)⟩
      · exact .inl ⟨q, hq, hclaim⟩

/-- **Every request keeps one claimant.** -/
theorem sole_step (hx : Reachable env x) (hI : Settled x) (hP : orderly env x l = true)
    (hs : x.Step y l) (hp : y.procs[i]? = some p) (hq : y.procs[j]? = some q)
    (hcp : claims p id = true) (hcq : claims q id = true) : i = j := by
  have fresh : ∀ {i j : Nat} {p q : Process (service env)} {o : Fate Supply} {op : Op}
      {k : Except Err op.Ans → Program Reply} {a : Except Err op.Ans} {r : ChatLinkRequest},
      l = .perform i o → x.procs[i]? = some p → p.prog = some (.call op k) →
      backend.exec op o x.world = some (a, y.world) → readLive ⟨op, a⟩ = some r →
      x.procs[j]? = some q → claims q r.id = true → False := by
    rintro i j p q o op k a r rfl hp hk he hread hq hcq
    have hno := (orderly_read hP hp hk he hread).2.2.1 q (List.mem_of_getElem? hq)
    rw [hno] at hcq
    cases hcq
  rcases claims_step hx hs hp hcp with ⟨p', hp', hcp'⟩ | ⟨p', o, op, k, a, r, hl, hp', hk, he, hread, hid⟩
  · rcases claims_step hx hs hq hcq with ⟨q', hq', hcq'⟩ | ⟨q', o, op, k, a, r, hl, hq', hk, he, hread, hid⟩
    · exact hI.sole hp' hq' hcp' hcq'
    · exact (fresh hl hq' hk he hread hp' (hid ▸ hcp')).elim
  · rcases claims_step hx hs hq hcq with ⟨q', hq', hcq'⟩ | ⟨q', o', op', k', a', r', hl', -⟩
    · exact (fresh hl hp' hk he hread hq' (hid ▸ hcq')).elim
    · cases hl.symm.trans hl'
      rfl

/-- A process before a step: it did nothing, or performed the operation, or is new. -/
theorem process_cases (hs : x.Step y l) (hq : y.procs[j]? = some q) :
    (∃ p, x.procs[j]? = some p ∧ q.call = p.call ∧ q.hist = p.hist ∧
      (running q = true → running p = true) ∧ ∀ o, l ≠ .perform j o) ∨
    q.hist = [] ∨
    ∃ o p op k a, l = .perform j o ∧ x.procs[j]? = some p ∧ p.prog = some (.call op k) ∧
      backend.exec op o x.world = some (a, y.world) ∧ q.call = p.call ∧
      q.hist = ⟨op, a⟩ :: p.hist := by
  cases hs with
  | arrive hadm hw hprocs =>
      rw [hprocs, List.getElem?_append] at hq
      split at hq
      · exact .inl ⟨q, hq, rfl, rfl, fun hrun => hrun, fun _ hl => by cases hl⟩
      · rw [List.mem_singleton.mp (List.mem_of_getElem? hq)]
        exact .inr (.inl rfl)
  | @crash i p hp hw hprocs =>
      rw [hprocs] at hq
      rcases getElem?_set_cases hp hq with ⟨rfl, rfl⟩ | ⟨-, hq⟩
      · exact .inl ⟨p, hp, rfl, rfl, fun hrun => (by cases hrun), fun _ hl => (by cases hl)⟩
      · exact .inl ⟨q, hq, rfl, rfl, fun hrun => hrun, fun _ hl => by cases hl⟩
  | drift hm hprocs =>
      exact .inl ⟨q, hprocs ▸ hq, rfl, rfl, fun hrun => hrun, fun _ hl => by cases hl⟩
  | @perform i o p op k a hp hk he hprocs =>
      rw [hprocs] at hq
      rcases getElem?_set_cases hp hq with ⟨rfl, rfl⟩ | ⟨hne, hq⟩
      · exact .inr (.inr ⟨o, p, op, k, a, rfl, hp, hk, he, rfl, rfl⟩)
      · refine .inl ⟨q, hq, rfl, rfl, fun hrun => hrun, fun _ hl => ?_⟩
        cases hl
        exact hne rfl

/-- **Who works on a request knows it.** -/
theorem has_step (hx : Reachable env x) (hI : Settled x) (hP : orderly env x l = true)
    (hs : x.Step y l) : ∀ q ∈ y.procs, running q = true → ∀ r, (phase q.hist).request = some r →
      Has y.world r := by
  intro q hq hrun r hr
  obtain ⟨j, hq⟩ := List.getElem?_of_mem hq
  rcases process_cases hs hq with ⟨p, hp, -, hhist, hrunning, hidle⟩ | hnil |
    ⟨o, p, op, k, a, rfl, hp, hk, he, -, hhist⟩
  · rw [hhist] at hr
    exact has_frame hx hI hP hs hp (hrunning hrun) hr
      fun o q op k hl hq hk => (hidle o hl).elim
  · rw [hnil] at hr
    cases hr
  · have hJ := promises_of_reaches hx (List.mem_of_getElem? hp) hk
    rw [hhist] at hr
    rcases request_step (e := ⟨op, a⟩) hJ hr with ⟨-, hread⟩ | ⟨hcounts, hr⟩ | ⟨r₀, hphase, rfl, heq⟩
    · obtain ⟨hmem, hsame, -⟩ := orderly_read hP hp hk he hread
      exact ⟨r.attemptCount, hsame ▸ hmem⟩
    · refine has_frame hx hI hP hs hp (running_of hk) hr fun o' q op' k' _ hq' hk' => ?_
      cases hp.symm.trans hq'
      cases hk.symm.trans hk'
      exact hcounts
    · obtain ⟨n, hrow⟩ := hI.has p (List.mem_of_getElem? hp) (running_of hk) r₀ (by rw [hphase]; rfl)
      cases heq
      refine ⟨n, Table.mem_def.mpr ((update_ok he).2 ▸ List.mem_map.mpr ⟨_, hrow, ?_⟩)⟩
      simp [LinkRequestUpdate.at, LinkRequestUpdate.apply]

/-! ## What else a step keeps -/

/-- What a call newly knows of its request it read. -/
theorem sound_cons (hJ : Promises h e.op) (hsound : (phase h).Sound)
    (hread : ∀ r, readLive e = some r →
      r.status = .pending ∧ r.consumedAt = none ∧ (∃ c, e.op = .linkRequestFindByHash c) ∨
        (r.status = .pendingReview ∧ ConsumedInTime r) ∧ ∃ id, e.op = .linkRequestFindUnique id) :
    (phase (e :: h)).Sound := by
  rw [phase_cons]
  generalize phase h = ph at hsound ⊢
  fun_cases Phase.step ph e
  case case4 codeHash r hpending =>
    rcases hread r (by simp [readLive, hpending]) with ⟨-, hnone, -⟩ | ⟨-, id, hop⟩
    · exact ⟨hpending, hnone⟩
    · cases hop
  case case8 id r hreview =>
    rcases hread r (by simp [readLive, hreview]) with ⟨-, -, c, hop⟩ | ⟨hboth, -⟩
    · cases hop
    · exact hboth
  case case10 r id a => exact ⟨rfl, hsound.2⟩
  all_goals first
    | exact hsound
    | exact hsound.1
    | trivial

theorem checked_step (hr : phase (e :: h) = .checked r) :
    phase h = .checked r ∨ ∃ now, e = ⟨.now, .ok now⟩ ∧ now < r.expiresAt := by
  rw [phase_cons] at hr
  generalize phase h = ph at hr ⊢
  revert hr
  fun_cases Phase.step ph e <;> intro hr
  case case6 r' now hopen => cases hr; exact .inr ⟨now, rfl, hopen⟩
  all_goals first
    | exact .inl hr
    | cases hr

/-- **A merge is recorded as completed.** -/
theorem linked_step (hJ : Promises h e.op) (hr : phase (e :: h) = .linked r) :
    phase h = .linked r ∨ phase h = .merged r ∧ ∃ d, e = ⟨.linkRequestUpdate r.id d, .ok ()⟩ ∧
      ∀ r', (d.apply r').id = r'.id ∧ (d.apply r').status = .completed := by
  obtain ⟨ph, hph⟩ : ∃ ph, phase h = ph := ⟨_, rfl⟩
  rw [phase_cons, hph] at hr
  rw [hph]
  revert hr
  fun_cases Phase.step ph e <;> intro hr
  case case13 r' id d _ hd =>
    cases hr
    refine .inr ⟨rfl, ?_⟩
    cases d with
    | countAttempt => exact absurd rfl hd
    | consumeAs data now =>
        obtain ⟨r₁, i, rfl, ⟨hphase, -⟩ | ⟨hphase, hcompleted⟩, -⟩ := hJ
        · cases hph.symm.trans hphase
        · cases hph.symm.trans hphase
          exact ⟨_, rfl, fun r' => ⟨rfl, hcompleted⟩⟩
    | promote =>
        obtain ⟨r₁, hphase, -⟩ := hJ
        cases hph.symm.trans hphase
    | reject by' now =>
        obtain ⟨r₁, hphase, -⟩ := hJ
        cases hph.symm.trans hphase
    | complete by' now =>
        obtain ⟨r₁, hphase, rfl⟩ := hJ
        cases hph.symm.trans hphase
        exact ⟨_, rfl, fun r' => ⟨rfl, rfl⟩⟩
  all_goals first
    | exact .inl hr
    | cases hr

theorem sound_step (hx : Reachable env x) (hI : Settled x) (hP : orderly env x l = true)
    (hs : x.Step y l) : ∀ q ∈ y.procs, (phase q.hist).Sound := by
  intro q hq
  obtain ⟨j, hq⟩ := List.getElem?_of_mem hq
  rcases process_cases hs hq with ⟨p, hp, -, hhist, -⟩ | hnil |
    ⟨o, p, op, k, a, rfl, hp, hk, he, -, hhist⟩
  · rw [hhist]
    exact hI.sound p (List.mem_of_getElem? hp)
  · rw [hnil]
    trivial
  · have hmem := List.mem_of_getElem? hp
    rw [hhist]
    refine sound_cons (promises_of_reaches hx hmem hk) (hI.sound p hmem) fun r hread => ?_
    obtain ⟨hr, -, -, hread⟩ := orderly_read hP hp hk he hread
    exact hread.imp_right fun ⟨hreview, hop⟩ => ⟨⟨hreview, hI.parked r hr hreview⟩, hop⟩

/-- **A checked request does not expire** while someone is about to merge with it. -/
theorem unexpired_step (hI : Settled x) (hP : orderly env x l = true) (hs : x.Step y l) :
    ∀ q ∈ y.procs, running q = true → ∀ r, phase q.hist = .checked r →
      World.clock y.world < r.expiresAt := by
  intro q hq hrun r hr
  obtain ⟨j, hq⟩ := List.getElem?_of_mem hq
  rcases process_cases hs hq with ⟨p, hp, -, hhist, hrunning, -⟩ | hnil |
    ⟨o, p, op, k, a, rfl, hp, hk, he, -, hhist⟩
  · have hmem := List.mem_of_getElem? hp
    rw [hhist] at hr
    have hbefore := hI.unexpired p hmem (hrunning hrun) r hr
    rcases hs.world_cases with hw | ⟨i, o, q, op, k, a, -, -, -, he, -⟩ | ⟨m, rfl, hm⟩
    · rwa [hw]
    · replace he : backend.exec op o x.world = some (a, y.world) := he
      rwa [clock_exec he]
    · replace hm : drift m x.world = some y.world := hm
      cases m with
      | tick elapsed =>
          have hproc := List.all_eq_true.mp hP p hmem
          simp only [hrunning hrun, hr, Bool.not_true, Bool.false_or, decide_eq_true_eq] at hproc
          rw [← Option.some.inj hm]
          exact hproc
      | signUp id email =>
          simp only [drift] at hm
          obtain ⟨authUsers, -, hm⟩ := Option.bind_eq_some_iff.mp hm
          obtain ⟨users, -, hm⟩ := Option.bind_eq_some_iff.mp hm
          rw [← Option.some.inj hm]
          exact hbefore
      | others =>
          rw [← Option.some.inj hm]
          exact hbefore
  · rw [hnil] at hr
    cases hr
  · rw [hhist] at hr
    rw [clock_exec he]
    rcases checked_step hr with hr | ⟨now, heq, hopen⟩
    · exact hI.unexpired p (List.mem_of_getElem? hp) (running_of hk) r hr
    · cases heq
      rwa [← (now_ok he).1]

/-- **Requests under review were consumed in time.** -/
theorem parked_step (hx : Reachable env x) (hI : Settled x) (hs : x.Step y l) :
    ∀ r ∈ World.linkRequests y.world, r.status = .pendingReview → ConsumedInTime r := by
  intro r hr hreview
  rcases hs.world_cases with hw | ⟨i, o, p, op, k, a, rfl, hp, hk, he, -⟩ | ⟨m, -, hm⟩
  · exact hI.parked r (hw ▸ hr) hreview
  · replace he : backend.exec op o x.world = some (a, y.world) := he
    have hmem := List.mem_of_getElem? hp
    rcases row_origin he hr with ⟨r₀, hr₀, n, rfl⟩ | ⟨r₀, -, t, rfl⟩ | ⟨d, s, -, -, -, rfl⟩ |
      ⟨r₀, hr₀, d, rfl, hd, rfl⟩
    · exact hI.parked r₀ hr₀ hreview
    · cases hreview
    · cases hreview
    · have hJ := promises_of_reaches hx hmem hk
      cases d with
      | countAttempt => exact absurd rfl hd
      | consumeAs data now =>
          obtain ⟨r₁, i, hid, ⟨hphase, -⟩ | ⟨-, hcompleted⟩, -, -, -, -, hnow⟩ := hJ
          · obtain ⟨n, hrow⟩ := hI.has p hmem (running_of hk) r₁ (by rw [hphase]; rfl)
            have hsame := request_eq hrow hr₀ hid
            have hopen := hI.unexpired p hmem (running_of hk) r₁ hphase
            refine ⟨now, rfl, ?_⟩
            have hexpires : r₁.expiresAt = r₀.expiresAt := by rw [← hsame]
            exact Int.lt_of_le_of_lt (now_le hx p hmem now hnow) (hexpires ▸ hopen)
          · exact absurd (hreview.symm.trans hcompleted) (by decide)
      | promote => cases hreview
      | reject by' now => cases hreview
      | complete by' now => cases hreview
  · exact hI.parked r (drift_requests hm ▸ hr) hreview

/-- A completed request stays completed. -/
theorem completed_frame (hx : Reachable env x) (hI : Settled x) (hs : x.Step y l)
    (h : ∃ r ∈ World.linkRequests x.world, r.id = id ∧ r.status = .completed) :
    ∃ r ∈ World.linkRequests y.world, r.id = id ∧ r.status = .completed := by
  obtain ⟨r, hr, hid, hcompleted⟩ := h
  rcases hs.world_cases with hw | ⟨i, o, p, op, k, a, rfl, hp, hk, he, -⟩ | ⟨m, -, hm⟩
  · exact ⟨r, hw ▸ hr, hid, hcompleted⟩
  · replace he : backend.exec op o x.world = some (a, y.world) := he
    have hmem := List.mem_of_getElem? hp
    rcases row_kept he hr with ⟨n, hkept⟩ | ⟨target, t, -, hpending⟩ | ⟨d, rfl, hd⟩
    · exact ⟨_, hkept, hid, hcompleted⟩
    · simp [isPendingOf, hcompleted] at hpending
    · obtain ⟨r₁, hr₁, hid₁⟩ := request_of_update (promises_of_reaches hx hmem hk) hd
      obtain ⟨n, hrow⟩ := hI.has p hmem (running_of hk) r₁ hr₁
      have hsame := request_eq hrow hr hid₁
      have hstatus : r₁.status = .completed := by rw [← hcompleted, ← hsame]
      rcases (hI.sound p hmem).open hr₁ with hopen | hopen
      · exact absurd (hopen.symm.trans hstatus) (by decide)
      · exact absurd (hopen.symm.trans hstatus) (by decide)
  · exact ⟨r, drift_requests hm ▸ hr, hid, hcompleted⟩

theorem completed_step (hx : Reachable env x) (hI : Settled x) (hs : x.Step y l) :
    ∀ q ∈ y.procs, ∀ r, phase q.hist = .linked r →
      ∃ r' ∈ World.linkRequests y.world, r'.id = r.id ∧ r'.status = .completed := by
  intro q hq r hr
  obtain ⟨j, hq⟩ := List.getElem?_of_mem hq
  rcases process_cases hs hq with ⟨p, hp, -, hhist, -⟩ | hnil |
    ⟨o, p, op, k, a, rfl, hp, hk, he, -, hhist⟩
  · rw [hhist] at hr
    exact completed_frame hx hI hs (hI.linked p (List.mem_of_getElem? hp) r hr)
  · rw [hnil] at hr
    cases hr
  · have hmem := List.mem_of_getElem? hp
    rw [hhist] at hr
    rcases linked_step (promises_of_reaches hx hmem hk) hr with hr | ⟨-, d, heq, happly⟩
    · exact completed_frame hx hI hs (hI.linked p hmem r hr)
    · cases heq
      obtain ⟨⟨r₀, hr₀, hid⟩, hrows⟩ := update_ok he
      refine ⟨d.apply r₀, Table.mem_def.mpr (hrows ▸ List.mem_map.mpr ⟨r₀, hr₀, ?_⟩),
        (happly r₀).1.trans hid, (happly r₀).2⟩
      simp [LinkRequestUpdate.at, hid]

/-- **Who merged with a request** had done so before, or does so now and works on it. -/
theorem used_cases (hs : x.Step y l) (hq : y.procs[j]? = some q)
    (hr : (phase q.hist).used = some r) :
    (∃ p, x.procs[j]? = some p ∧ (phase p.hist).used = some r) ∨
    ∃ o p, l = .perform j o ∧ x.procs[j]? = some p ∧ running p = true ∧
      (phase p.hist).request = some r := by
  rcases process_cases hs hq with ⟨p, hp, -, hhist, -⟩ | hnil |
    ⟨o, p, op, k, a, rfl, hp, hk, he, -, hhist⟩
  · exact .inl ⟨p, hp, hhist ▸ hr⟩
  · rw [hnil] at hr
    cases hr
  · rw [hhist] at hr
    rcases used_step hr with hr | ⟨-, hr⟩
    · exact .inl ⟨p, hp, hr⟩
    · exact .inr ⟨o, p, rfl, hp, running_of hk, hr⟩

/-- Nobody works on a request that another call merged with. -/
theorem not_working (hI : Settled x) {r' : ChatLinkRequest} (hp : x.procs[i]? = some p)
    (hq : x.procs[j]? = some q) (hused : (phase p.hist).used = some r) (hrun : running q = true)
    (hr : (phase q.hist).request = some r') (hid : r.id = r'.id) : i = j := by
  have hclaim : claims q r.id = true := hid ▸ claims_of hrun hr
  have hcase : (phase p.hist).unrecorded = some r ∨ phase p.hist = .linked r := by
    generalize phase p.hist = ph at hused
    cases ph <;> cases hused
    · exact .inl rfl
    · exact .inr rfl
    · exact .inl rfl
  rcases hcase with hunrecorded | hlinked
  · refine hI.sole hp hq ?_ hclaim
    rw [claims, hunrecorded]
    simp
  · obtain ⟨c, hc, hcid, hcompleted⟩ := hI.linked p (List.mem_of_getElem? hp) r hlinked
    have hmem := List.mem_of_getElem? hq
    obtain ⟨n, hrow⟩ := hI.has q hmem hrun r' hr
    have hsame := request_eq hrow hc (hid.symm.trans hcid.symm)
    have hstatus : r'.status = .completed := by rw [← hcompleted, ← hsame]
    rcases (hI.sound q hmem).open hr with hopen | hopen
    · exact absurd (hopen.symm.trans hstatus) (by decide)
    · exact absurd (hopen.symm.trans hstatus) (by decide)

/-- **A request is merged with once.** -/
theorem once_step (hI : Settled x) (hs : x.Step y l) {r r' : ChatLinkRequest}
    (hp : y.procs[i]? = some p) (hq : y.procs[j]? = some q) (hr : (phase p.hist).used = some r)
    (hr' : (phase q.hist).used = some r') (hid : r.id = r'.id) : i = j := by
  rcases used_cases hs hp hr with ⟨p', hp', hr⟩ | ⟨o, p', hl, hp', hrun, hr⟩
  · rcases used_cases hs hq hr' with ⟨q', hq', hr'⟩ | ⟨o, q', hl, hq', hrun, hr'⟩
    · exact hI.once hp' hq' hr hr' hid
    · exact not_working hI hp' hq' hr hrun hr' hid
  · rcases used_cases hs hq hr' with ⟨q', hq', hr'⟩ | ⟨o', q', hl', hq', hrun', hr'⟩
    · exact (not_working hI hq' hp' hr' hrun hr hid.symm).symm
    · cases hl.symm.trans hl'
      rfl

/-- **A step keeps the invariant.** -/
theorem settled_step (hx : Reachable env x) (hI : Settled x) (hP : orderly env x l = true)
    (hs : x.Step y l) : Settled y where
  sole := sole_step hx hI hP hs
  has := has_step hx hI hP hs
  sound := sound_step hx hI hP hs
  unexpired := unexpired_step hI hP hs
  parked := parked_step hx hI hs
  linked := completed_step hx hI hs
  once := once_step hI hs

end Meduman.Linking
