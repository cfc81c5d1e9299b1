import Meduman.Effect.Task
import Meduman.Model.Otp

/-!
# What the calls do to the codes

An issue retires the earlier codes and then creates its own. A verification reads the newest code,
compares, and writes how that went.

* `readCode`, `openRead`, `guessed`, `incremented`, `consumed` : what a history shows of a verification
* `retires` : what an issue owes between its retire and its create
* `OtpCode.Later`, `otpCodes_change` : what an operation does to the codes
* `Promises`, `Leaves`, **`code_promises`** : what every call promises, and how it ends
* `seen_reachable` : a code that was read stays, and so does what it belongs to
-/

set_option autoImplicit false

namespace Meduman.Otp

open Effect

abbrev Hist := History Op.Ans Err

/-! ## What a history shows -/

/-- The code a query returned. -/
def readOf : Event Op.Ans Err → Option OtpCode
  | ⟨.otpCodeFindFirst .., .ok c⟩ => c
  | _ => none

/-- The code a verification read. -/
def readCode (h : Hist) : Option OtpCode := h.findSome? readOf

/-- The code a verification read, when it was not locked. -/
def openRead (env : Env) (h : Hist) : Option OtpCode :=
  (readCode h).filter fun c => c.attemptCount < env.otpMaxAttempts

/-- The code against which a wrong one was compared. -/
def mismatchOf : Event Op.Ans Err → Option Uuid
  | ⟨.compare _ c, .ok false⟩ => some c.id
  | _ => none

/-- A wrong code was compared with this one. -/
def guessed (id : Uuid) (h : Hist) : Bool := h.any fun e => mismatchOf e == some id

def counts (id : Uuid) : Event Op.Ans Err → Bool
  | ⟨.otpCodeIncrementAttempts i, _⟩ => i == id
  | _ => false

/-- The attempt count of this code was incremented, or failed to be. -/
def incremented (id : Uuid) (h : Hist) : Bool := h.any (counts id)

/-- Every comparison with a wrong code was followed by an increment. -/
def accounted (h : Hist) : Bool := h.all fun e => (mismatchOf e).all fun id => incremented id h

/-- The operation consumed this code. -/
def consumes (id : Uuid) : Event Op.Ans Err → Bool
  | ⟨.otpCodeConsume i _, .ok count⟩ => i == id && count == 1
  | _ => false

/-- The call consumed this code. -/
def consumed (id : Uuid) (h : Hist) : Bool := h.any (consumes id)

/-- After it retired the codes of a transaction and purpose, an issue owes a new one. -/
def retires : Event Op.Ans Err → Option (Option (Uuid × OtpPurpose))
  | ⟨.otpCodeRetire t p _, .ok _⟩ => some (some (t, p))
  | ⟨.otpCodeCreate _, _⟩ => some none
  | _ => none

variable {env : Env} {c : Call} {h : Hist} {e : Event Op.Ans Err} {otp : OtpCode} {id : Uuid}

@[simp] theorem guessed_cons :
    guessed id (e :: h) = (mismatchOf e == some id || guessed id h) := rfl

@[simp] theorem incremented_cons : incremented id (e :: h) = (counts id e || incremented id h) := rfl

@[simp] theorem consumed_cons : consumed id (e :: h) = (consumes id e || consumed id h) := rfl

theorem readCode_cons (he : readOf e = none) : readCode (e :: h) = readCode h := by
  rw [readCode, List.findSome?_cons, he]
  rfl

theorem readCode_read (he : readOf e = some otp) : readCode (e :: h) = some otp := by
  rw [readCode, List.findSome?_cons, he]

theorem openRead_cons (he : readOf e = none) : openRead env (e :: h) = openRead env h := by
  rw [openRead, readCode_cons he, openRead]

theorem openRead_some (ho : openRead env h = some otp) :
    readCode h = some otp ∧ otp.attemptCount < env.otpMaxAttempts := by
  obtain ⟨hread, hopen⟩ := Option.filter_eq_some_iff.mp ho
  exact ⟨hread, of_decide_eq_true hopen⟩

theorem accounted_iff :
    accounted h = true ↔ ∀ id, guessed id h = true → incremented id h = true := by
  simp only [accounted, guessed, List.all_eq_true, List.any_eq_true, beq_iff_eq, Option.all_eq_true]
  constructor
  · rintro hall id ⟨e, he, hm⟩
    exact hall e he id hm
  · exact fun hall e he id hm => hall id ⟨e, he, hm⟩

theorem accounted_cons (he : mismatchOf e = none) (hh : accounted h = true) :
    accounted (e :: h) = true := by
  rw [accounted_iff] at hh ⊢
  intro id hg
  rw [guessed_cons, he] at hg
  rw [incremented_cons, hh id (by simpa using hg), Bool.or_true]

/-! ## What one operation does to the codes -/

/-- Codes of one transaction and purpose. -/
def OtpCode.Alike (a b : OtpCode) : Prop :=
  a.transactionId = b.transactionId ∧ a.purpose = b.purpose

/-- A later version of a code. -/
structure OtpCode.Later (c c' : OtpCode) : Prop where
  id : c'.id = c.id
  alike : c.Alike c'
  hash : c'.codeHash = c.codeHash
  attempts : c.attemptCount ≤ c'.attemptCount
  consumed : c.consumedAt ≠ none → c'.consumedAt ≠ none

theorem OtpCode.Later.refl (c : OtpCode) : c.Later c :=
  ⟨rfl, ⟨rfl, rfl⟩, rfl, Nat.le_refl _, fun h => h⟩

theorem OtpCode.Later.trans {a b d : OtpCode} (hab : a.Later b) (hbd : b.Later d) : a.Later d where
  id := hbd.id.trans hab.id
  alike := ⟨hab.alike.1.trans hbd.alike.1, hab.alike.2.trans hbd.alike.2⟩
  hash := hbd.hash.trans hab.hash
  attempts := Nat.le_trans hab.attempts hbd.attempts
  consumed h := hbd.consumed (hab.consumed h)

variable {u w : World}

/-- The codes after an update that only counts an attempt or consumes. -/
theorem rows_update_later {t t' : Table OtpCode} {selects : OtpCode → Bool}
    {f : OtpCode → OtpCode} (h : t.update selects f = some t') (hf : ∀ c : OtpCode, c.Later (f c)) :
    ∃ g, t'.rows = t.rows.map g ∧ ∀ c : OtpCode, c.Later (g c) := by
  refine ⟨_, Table.rows_update h, fun c => ?_⟩
  split
  · exact hf c
  · exact .refl c

theorem updateMany_change {selects : OtpCode → Bool} {f : OtpCode → OtpCode}
    (hf : ∀ c : OtpCode, c.Later (f c)) : (updateMany selects f u).2.otpCodes = u.otpCodes ∨
      ∃ g, (updateMany selects f u).2.otpCodes.rows = u.otpCodes.rows.map g ∧
        ∀ c : OtpCode, c.Later (g c) := by
  unfold updateMany
  split
  · exact .inl rfl
  · exact .inr (rows_update_later ‹_› hf)

/-- A code with one attempt more. -/
theorem later_counted (c : OtpCode) : c.Later { c with attemptCount := c.attemptCount + 1 } :=
  ⟨rfl, ⟨rfl, rfl⟩, rfl, Nat.le_succ _, fun h => h⟩

theorem incrementAttempts_change : (incrementAttempts id u).2.otpCodes = u.otpCodes ∨
    ∃ g, (incrementAttempts id u).2.otpCodes.rows = u.otpCodes.rows.map g ∧
      ∀ c : OtpCode, c.Later (g c) := by
  unfold incrementAttempts
  split
  · exact .inl rfl
  · split
    · exact .inl rfl
    · exact .inr (rows_update_later ‹_› later_counted)

/-- An increment counts an attempt at its code. -/
theorem incrementAttempts_row {c' : OtpCode} (hc' : c' ∈ (incrementAttempts id u).2.otpCodes)
    (hid : c'.id = id) :
    ∃ c ∈ u.otpCodes, c.id = id ∧ c'.attemptCount = c.attemptCount + 1 := by
  unfold incrementAttempts at hc'
  split at hc'
  · rename_i hnone
    have hmiss := Table.find_none hnone hc'
    simp [hid] at hmiss
  · split at hc'
    · rename_i hfail
      obtain ⟨t, ht⟩ := Table.update_isSome (t := u.otpCodes) (p := fun c => c.id == id)
        (f := fun c => { c with attemptCount := c.attemptCount + 1 })
        fun a _ b _ => by split <;> split <;> rfl
      rw [ht] at hfail
      cases hfail
    · rename_i hwrite
      obtain ⟨c, hc, rfl⟩ := (Table.mem_update hwrite).mp hc'
      by_cases hsel : (c.id == id) = true
      · exact ⟨c, hc, beq_iff_eq.mp hsel, by rw [if_pos hsel]⟩
      · rw [if_neg hsel] at hid
        exact absurd (beq_iff_eq.mpr hid) hsel

/-- An operation leaves the codes alone, creates one, or leaves a later version of each. -/
theorem otpCodes_change {op : Op} {o : Fate Supply} {a : Except Err op.Ans}
    (h : backend.exec op o u = some (a, w)) : w.otpCodes = u.otpCodes ∨
      (∃ d s, op = .otpCodeCreate d ∧ o.supply = some s ∧
        u.otpCodes.create (d.row s.id u.clock) = some w.otpCodes) ∨
      ∃ f, w.otpCodes.rows = u.otpCodes.rows.map f ∧ ∀ c : OtpCode, c.Later (f c) := by
  rcases Backend.exec_cases h with ⟨rfl, -⟩ | ⟨s, ho, -, rfl, -⟩
  · exact .inl rfl
  · cases op with
    | otpCodeRetire t p consumedAt =>
        refine (updateMany_change ?_).imp_right .inr
        exact fun _ => ⟨rfl, ⟨rfl, rfl⟩, rfl, Nat.le_refl _, fun _ => Option.some_ne_none _⟩
    | otpCodeConsume id consumedAt =>
        refine (updateMany_change ?_).imp_right .inr
        exact fun _ => ⟨rfl, ⟨rfl, rfl⟩, rfl, Nat.le_refl _, fun _ => Option.some_ne_none _⟩
    | otpCodeIncrementAttempts id => exact incrementAttempts_change.imp_right .inr
    | otpCodeCreate d =>
        simp only [backend, effect]
        split
        · exact .inl rfl
        · exact .inr (.inl ⟨d, s, rfl, ho, ‹_›⟩)
    | _ => exact .inl rfl

/-- One row consumed: it was not consumed before, and is now. -/
theorem consume_one {t : Int} {o : Fate Supply}
    (h : backend.exec (.otpCodeConsume id t) o u = some (.ok 1, w)) :
    (∃ c ∈ u.otpCodes, c.id = id ∧ c.consumedAt = none) ∧
      ∃ c ∈ w.otpCodes, c.id = id ∧ c.consumedAt ≠ none := by
  obtain ⟨s, -, heff⟩ := Backend.exec_ok h
  simp only [backend, effect, updateMany] at heff
  split at heff
  · cases (Prod.ext_iff.mp heff).1
  · rename_i otpCodes hupdate
    obtain ⟨hcount, rfl⟩ := Prod.ext_iff.mp heff
    have hone : u.otpCodes.count (fun c => c.id == id && c.consumedAt.isNone) = 1 :=
      Except.ok.inj hcount
    obtain ⟨c, hc, hsel⟩ := List.countP_pos_iff.mp (hone ▸ Nat.one_pos)
    have hboth : c.id = id ∧ c.consumedAt = none := by simpa using hsel
    exact ⟨⟨c, hc, hboth⟩, _, Table.mem_update_of hupdate hc hsel, hboth.1, Option.some_ne_none _⟩

/-- Codes retired: every one of the transaction and purpose is consumed. -/
theorem retire_all {t : Uuid} {p : OtpPurpose} {at' : Int} {o : Fate Supply} {n : Nat}
    (h : backend.exec (.otpCodeRetire t p at') o u = some (.ok n, w)) :
    ∀ c ∈ w.otpCodes, c.transactionId = t → c.purpose = p → c.consumedAt ≠ none := by
  obtain ⟨s, -, heff⟩ := Backend.exec_ok h
  simp only [backend, effect, updateMany] at heff
  split at heff
  · cases (Prod.ext_iff.mp heff).1
  · rename_i otpCodes hupdate
    obtain ⟨-, rfl⟩ := Prod.ext_iff.mp heff
    intro c hc ht hp
    obtain ⟨b, hb, rfl⟩ := (Table.mem_update hupdate).mp hc
    by_cases hsel : active t p b = true
    · rw [if_pos hsel]
      exact Option.some_ne_none _
    · rw [if_neg hsel] at ht hp ⊢
      simpa [active, ht, hp] using hsel

/-! ## What every call promises -/

/-- A query finds an unconsumed code, and a comparison compares. -/
def Possible : Event Op.Ans Err → Prop
  | ⟨.otpCodeFindFirst t p, .ok (some c)⟩ => active t p c = true
  | ⟨.compare candidate c, .ok same⟩ => same = timingSafeEqualHex candidate c.codeHash
  | _ => True

/-- A query finds one of the newest codes, and leaves the codes alone. -/
theorem found_newest {t : Uuid} {p : OtpPurpose} {o : Fate Supply}
    (he : backend.exec (.otpCodeFindFirst t p) o u = some (.ok (some otp), w)) :
    otp ∈ newest t p u.otpCodes ∧ w.otpCodes = u.otpCodes := by
  obtain ⟨s, -, heff⟩ := Backend.exec_ok he
  obtain ⟨hfound, rfl⟩ := Prod.ext_iff.mp heff
  refine ⟨?_, rfl⟩
  rcases Option.or_eq_some_iff.mp (Except.ok.inj hfound) with hget | ⟨-, hget⟩
  · exact List.mem_of_getElem? hget
  · exact List.mem_of_getElem? hget

theorem possible_of_exec {op : Op} {o : Fate Supply} {a : Except Err op.Ans}
    (he : (service env).exec op o u = some (a, w)) : Possible ⟨op, a⟩ := by
  cases op with
  | otpCodeFindFirst t p =>
      rcases a with e | _ | found
      · trivial
      · trivial
      · exact (Table.mem_filter.mp (List.mem_filter.mp (found_newest he).1).1).2
  | compare candidate d =>
      rcases a with e | same
      · trivial
      · obtain ⟨s, -, heff⟩ := Backend.exec_ok he
        exact (Except.ok.inj (congrArg Prod.fst heff)).symm
  | _ => rcases a with e | a <;> trivial

/-- What a call promises: it compares, counts and consumes the one code it read, and no wrong code
consumes; an issue creates a code where it has just retired the earlier ones. -/
def Promises (env : Env) (c : Call) (h : Hist) : Op → Prop
  | .otpCodeFindFirst .. => (∃ input, c = .verify input) ∧
      ∀ id, guessed id h = false ∧ incremented id h = false
  | .compare _ c => openRead env h = some c
  | .otpCodeIncrementAttempts id => ∃ c, readCode h = some c ∧ c.id = id
  | .otpCodeConsume id _ =>
      (∃ c, openRead env h = some c ∧ c.id = id) ∧ ∀ id, guessed id h = false
  | .otpCodeCreate d => task retires h = some (d.transactionId, d.purpose)
  | _ => True

/-- The call read a code of this kind, that is the submitted one, and consumed it. -/
def Matched (env : Env) (input : VerifyOtpInput) (h : Hist) : Prop :=
  ∃ c, readCode h = some c ∧ consumed c.id h = true ∧ c.transactionId = input.transactionId ∧
    c.purpose = input.purpose ∧ matchesCode env input.code c = true

/-- How a call ends: every mismatch was counted, and a verification that succeeds consumed a code. -/
def Leaves (env : Env) (c : Call) (r : Except Err Reply) (h : Hist) : Prop :=
  accounted h = true ∧ ∀ input, c = .verify input → r = .ok .verified → Matched env input h

/-- The operation neither reads, compares nor writes a code. -/
def Op.aside : Op → Prop
  | .otpCodeFindFirst .. | .compare .. | .otpCodeIncrementAttempts _ | .otpCodeConsume ..
  | .otpCodeCreate _ => False
  | _ => True

theorem promises_of_aside (h : Hist) (op : Op) (hop : op.aside) : Promises env c h op := by
  cases op <;> first | exact hop.elim | trivial

theorem mismatchOf_aside {op : Op} {a : Except Err op.Ans} (hop : op.aside) :
    mismatchOf ⟨op, a⟩ = none := by
  cases op with
  | compare _ _ => exact hop.elim
  | _ => rfl

theorem accounted_append {l : Hist} (hl : ∀ e ∈ l, e.op.aside) (hh : accounted h = true) :
    accounted (l ++ h) = true := by
  induction l with
  | nil => exact hh
  | cons e l ih =>
      exact accounted_cons (mismatchOf_aside (hl e List.mem_cons_self))
        (ih fun e' he' => hl e' (List.mem_cons_of_mem _ he'))

variable {P : Event Op.Ans Err → Prop}

/-- A failure is audited, and leaves the mismatches as counted as they were. -/
theorem fail_promises {input : VerifyOtpInput} {reason : OtpFailureReason} {otpId : Option Uuid}
    (hh : accounted h = true) : (fail input reason otpId).Along P (Promises env c)
      (fun r h' => accounted h' = true ∧ r ≠ .ok ()) h := by
  have haudit : ((await (.auditLogCreate (otpAudit "otp.failed" input.actor otpId (some reason.text)
      input.transactionId input.purpose []))).tryCatch fun _ => pure () : Program Unit).Uses
      Op.aside := uses_tryCatch (uses_perform trivial) fun _ => uses_done _
  unfold fail
  rw [along_bind]
  refine haudit.along promises_of_aside fun r l hl => ?_
  cases r with
  | ok _ => exact ⟨accounted_append hl hh, fun hr => by cases hr⟩
  | error _ => exact ⟨accounted_append hl hh, fun hr => by cases hr⟩

/-- **A verification** compares the code it read, when that is not locked, counts a mismatch, and
succeeds where it consumed the code. -/
theorem verify_promises (input : VerifyOtpInput) :
    (verify env input).Along Possible (Promises env (.verify input))
      (fun r h' => accounted h' = true ∧ (r = .ok () → Matched env input h')) [] := by
  have failing : ∀ {h : Hist} {reason : OtpFailureReason} {otpId : Option Uuid},
      accounted h = true → (fail input reason otpId).Along Possible (Promises env (.verify input))
        (fun r h' => accounted h' = true ∧ (r = .ok () → Matched env input h')) h :=
    fun hh => (fail_promises hh).mono fun _ _ hr => ⟨hr.1, fun hok => absurd hok hr.2⟩
  unfold verify
  rw [along_perform_bind]
  refine ⟨⟨⟨input, rfl⟩, fun _ => ⟨rfl, rfl⟩⟩, fun _ _ => ⟨rfl, fun hr => by cases hr⟩, ?_⟩
  rintro (_ | otp) hactive
  · exact failing rfl
  have hbelongs : otp.transactionId = input.transactionId ∧ otp.purpose = input.purpose := by
    have hactive : active input.transactionId input.purpose otp = true := hactive
    simp only [active, Bool.and_eq_true, beq_iff_eq] at hactive
    exact hactive.1
  dsimp only
  rw [along_perform_bind]
  refine ⟨trivial, fun _ _ => ⟨rfl, fun hr => by cases hr⟩, fun now _ => ?_⟩
  split
  · exact failing rfl
  split
  · exact failing rfl
  rename_i hlive hopen
  have hread : openRead env [⟨.now, .ok now⟩, ⟨.otpCodeFindFirst input.transactionId input.purpose,
      .ok (some otp)⟩] = some otp :=
    Option.filter_eq_some_iff.mpr ⟨rfl, decide_eq_true (Nat.lt_of_not_le hopen)⟩
  rw [along_perform_bind]
  refine ⟨hread, fun _ _ => ⟨rfl, fun hr => by cases hr⟩, fun same hsame => ?_⟩
  split
  · -- the mismatch is counted, whatever the database answers
    rename_i hmiss
    obtain rfl : same = false := by simpa using hmiss
    have hcounted {a : Except Err Unit} : accounted (⟨.otpCodeIncrementAttempts otp.id, a⟩ ::
        ⟨.compare (env.hashCode input.code) otp, .ok false⟩ :: ⟨.now, .ok now⟩ ::
        [⟨.otpCodeFindFirst input.transactionId input.purpose, .ok (some otp)⟩]) = true := by
      rw [accounted_iff]
      intro id hguess
      have hid : otp.id = id := by simpa [guessed, mismatchOf] using hguess
      simp [incremented, counts, hid]
    rw [along_perform_bind]
    exact ⟨⟨otp, rfl, rfl⟩, fun _ _ => ⟨hcounted, fun hr => by cases hr⟩, fun _ _ => failing hcounted⟩
  · rename_i hmatch
    obtain rfl : same = true := by simpa using hmatch
    rw [along_perform_bind]
    refine ⟨trivial, fun _ _ => ⟨rfl, fun hr => by cases hr⟩, fun consumedAt _ => ?_⟩
    rw [along_perform_bind]
    refine ⟨⟨⟨otp, ?_, rfl⟩, fun _ => rfl⟩, fun _ _ => ⟨rfl, fun hr => by cases hr⟩, fun count _ => ?_⟩
    · rw [openRead_cons rfl, openRead_cons rfl]
      exact hread
    split
    · exact failing rfl
    · rename_i hone
      obtain rfl : count = 1 := Decidable.not_not.mp hone
      refine (along_perform _ _).mpr ⟨trivial, fun _ _ => ⟨rfl, fun hr => by cases hr⟩,
        fun _ _ => ⟨rfl, fun _ => ⟨otp, rfl, ?_, hbelongs.1, hbelongs.2, hsame.symm⟩⟩⟩
      simp [consumed, consumes]

/-- **An issue** creates a code where it has just retired the earlier ones. -/
theorem issue_promises (input : IssueOtpInput) :
    (issue env input).Along P (Promises env c) (fun _ h' => accounted h' = true) [] := by
  unfold issue
  rw [along_perform_bind]
  refine ⟨trivial, fun _ _ => rfl, fun found _ => ?_⟩
  split
  · exact rfl
  split
  · exact rfl
  rw [along_perform_bind]
  refine ⟨trivial, fun _ _ => rfl, fun retiredAt _ => ?_⟩
  rw [along_perform_bind]
  refine ⟨trivial, fun _ _ => rfl, fun retired _ => ?_⟩
  rw [along_perform_bind]
  refine ⟨trivial, fun _ _ => rfl, fun generated _ => ?_⟩
  rw [along_perform_bind]
  refine ⟨trivial, fun _ _ => rfl, fun now _ => ?_⟩
  rw [along_perform_bind]
  refine ⟨rfl, fun _ _ => rfl, fun created _ => ?_⟩
  rw [along_perform_bind]
  refine ⟨trivial, fun _ _ => rfl, fun _ _ => ?_⟩
  rw [along_perform_bind]
  exact ⟨trivial, fun _ _ => rfl, fun _ _ => rfl⟩

/-- **What every call promises,** and how it ends. -/
theorem code_promises (c : Call) :
    (code env c).Along Possible (Promises env c) (Leaves env c) [] := by
  cases c with
  | issue input =>
      rw [code, Prog.map_eq, along_bind]
      refine (issue_promises input).mono fun r h' hh => ?_
      cases r <;> exact ⟨hh, fun _ hc => by cases hc⟩
  | verify input =>
      rw [code, Prog.map_eq, along_bind]
      refine (verify_promises input).mono fun r h' hh => ?_
      cases r with
      | ok _ =>
          refine ⟨hh.1, fun input' hc _ => ?_⟩
          cases hc
          exact hh.2 rfl
      | error _ => exact ⟨hh.1, fun _ _ hr => by cases hr⟩

/-! ## Runs -/

variable {x y : Config (service env)}

/-- What a call in progress promises of the rest of it. -/
theorem kept_promise (hx : Reachable env x) {p : Process (service env)} (hp : p ∈ x.procs)
    {q : Program Reply} (hk : p.prog = some q) :
    q.Along Possible (Promises env p.call) (Leaves env p.call) p.hist :=
  hx.along (P := Possible) possible_of_exec (fun _ => code_promises _) p hp q hk

/-- **A comparison and an increment** are about the one code that was read. -/
theorem known_reachable (hx : Reachable env x) : ∀ p ∈ x.procs, ∀ id,
    (guessed id p.hist = true → ∃ c, openRead env p.hist = some c ∧ c.id = id) ∧
      (incremented id p.hist = true → ∃ c, readCode p.hist = some c ∧ c.id = id) := by
  refine hx.histories (J := fun c h => ∀ e l, h = e :: l → Promises env c l e.op)
    (T := fun _ h => ∀ id,
      (guessed id h = true → ∃ c, openRead env h = some c ∧ c.id = id) ∧
        (incremented id h = true → ∃ c, readCode h = some c ∧ c.id = id)) ?_ ?_ ?_
  · intro x hx p hp op k hk a e l heq
    cases heq
    exact (kept_promise hx hp hk).1
  · exact fun _ _ => ⟨fun hg => Bool.noConfusion hg, fun hi => Bool.noConfusion hi⟩
  · intro c e h hpromise hbefore id
    obtain ⟨op, a⟩ := e
    have hlast := hpromise _ _ rfl
    cases op with
    | otpCodeFindFirst t p =>
        obtain ⟨-, hnone⟩ : (∃ input, c = .verify input) ∧
          ∀ id, guessed id h = false ∧ incremented id h = false := hlast
        constructor
        · intro hg
          rw [guessed_cons, (hnone id).1] at hg
          cases hg
        · intro hi
          rw [incremented_cons, (hnone id).2] at hi
          cases hi
    | compare candidate d =>
        have hopen : openRead env h = some d := hlast
        rw [openRead_cons rfl, readCode_cons rfl]
        refine ⟨fun hg => ?_, fun hi => (hbefore id).2 hi⟩
        rcases Bool.or_eq_true_iff.mp hg with hnow | hg
        · refine ⟨d, hopen, ?_⟩
          rcases a with e | _ | _
          · cases hnow
          · exact Option.some.inj (beq_iff_eq.mp hnow)
          · cases hnow
        · exact (hbefore id).1 hg
    | otpCodeIncrementAttempts i =>
        obtain ⟨d, hread, hid⟩ : ∃ c, readCode h = some c ∧ c.id = i := hlast
        rw [openRead_cons rfl, readCode_cons rfl]
        refine ⟨fun hg => (hbefore id).1 hg, fun hi => ?_⟩
        rcases Bool.or_eq_true_iff.mp hi with hnow | hi
        · exact ⟨d, hread, hid.trans (beq_iff_eq.mp hnow)⟩
        · exact (hbefore id).2 hi
    | _ =>
        rw [openRead_cons rfl, readCode_cons rfl]
        exact hbefore id

/-- An issue reads no code. -/
theorem issue_reads (hx : Reachable env x) {p : Process (service env)} (hp : p ∈ x.procs)
    {input : IssueOtpInput} (hcall : p.call = .issue input) : readCode p.hist = none := by
  refine hx.histories (J := fun c h => ∀ e l, h = e :: l → Promises env c l e.op)
    (T := fun c h => c = Call.issue input → readCode h = none) ?_ (fun _ _ => rfl) ?_ p hp hcall
  · intro x hx p hp op k hk a e l heq
    cases heq
    exact (kept_promise hx hp hk).1
  · rintro c ⟨op, a⟩ h hpromise hbefore rfl
    have hlast := hpromise _ _ rfl
    cases op with
    | otpCodeFindFirst t p =>
        obtain ⟨hverify, -⟩ : (∃ input', Call.issue input = .verify input') ∧ _ := hlast
        cases hverify.choose_spec
    | _ => rw [readCode_cons rfl, hbefore rfl]

/-- Who consumed a code by the end of a step had consumed it before, or does so now. -/
theorem consumed_step {l : Label (service env)} (hs : x.Step y l) {j : Nat}
    {q : Process (service env)} (hq : y.procs[j]? = some q) (hc : consumed id q.hist = true) :
    (∃ p, x.procs[j]? = some p ∧ consumed id p.hist = true) ∨
      ∃ (p : Process (service env)) (t : Int) (k : Except Err Nat → Program Reply) (o : Fate Supply),
        l = .perform j o ∧ x.procs[j]? = some p ∧ p.prog = some (.call (.otpCodeConsume id t) k) ∧
          backend.exec (.otpCodeConsume id t) o x.world = some (.ok 1, y.world) := by
  rcases hs.hist_cases hq with ⟨p, hp, -, hh⟩ | hnil | ⟨p, op, k, o, a, hp, hk, hl, he, -, hh⟩
  · exact .inl ⟨p, hp, hh ▸ hc⟩
  · rw [hnil] at hc
    cases hc
  · rw [hh, consumed_cons] at hc
    rcases Bool.or_eq_true_iff.mp hc with hnow | hbefore
    · cases op with
      | otpCodeConsume i t =>
          rcases a with e | count
          · cases hnow
          · obtain ⟨hid, hone⟩ := Bool.and_eq_true_iff.mp hnow
            obtain rfl : i = id := beq_iff_eq.mp hid
            obtain rfl : count = 1 := beq_iff_eq.mp hone
            exact .inr ⟨p, t, k, o, hl, hp, hk, he⟩
      | _ => cases hnow
    · exact .inl ⟨p, hp, hbefore⟩

/-- A step leaves the codes alone, creates one, or leaves a later version of each. -/
theorem otpCodes_step {l : Label (service env)} (hs : x.Step y l) :
    World.otpCodes y.world = World.otpCodes x.world ∨
      (∃ i o p d k s, l = .perform i o ∧ x.procs[i]? = some p ∧
        p.prog = some (.call (.otpCodeCreate d) k) ∧ o.supply = some s ∧
        (World.otpCodes x.world).create (d.row s.id (World.clock x.world)) =
          some (World.otpCodes y.world)) ∨
      ∃ f, (World.otpCodes y.world).rows = (World.otpCodes x.world).rows.map f ∧
        ∀ c : OtpCode, c.Later (f c) := by
  rcases hs.world_cases with hw | ⟨i, o, p, op, k, a, rfl, hp, hk, he, -⟩ | ⟨m, -, hm⟩
  · exact .inl (by rw [hw])
  · replace he : backend.exec op o x.world = some (a, y.world) := he
    rcases otpCodes_change he with hsame | ⟨d, s, rfl, ho, hcreate⟩ | hlater
    · exact .inl hsame
    · exact .inr (.inl ⟨i, o, p, d, k, s, rfl, hp, hk, ho, hcreate⟩)
    · exact .inr (.inr hlater)
  · replace hm : drift m x.world = some y.world := hm
    cases m <;> exact .inl (by rw [← Option.some.inj hm])

/-- A code stays, and stays consumed. -/
theorem later_step {l : Label (service env)} (hs : x.Step y l) :
    ∀ c ∈ World.otpCodes x.world, ∃ c' ∈ World.otpCodes y.world, c.Later c' := by
  intro c hc
  rcases otpCodes_step hs with hsame | ⟨i, o, p, d, k, s, -, -, -, -, hcreate⟩ | ⟨f, hrows, hlater⟩
  · exact ⟨c, hsame ▸ hc, .refl c⟩
  · exact ⟨c, (Table.mem_create hcreate).mpr (.inl hc), .refl c⟩
  · exact ⟨f c, Table.mem_def.mpr (hrows ▸ List.mem_map_of_mem hc), hlater c⟩

/-- A code is a later version of one that was there, or was created now. -/
theorem earlier_step {l : Label (service env)} (hs : x.Step y l) :
    ∀ c' ∈ World.otpCodes y.world, (∃ c ∈ World.otpCodes x.world, c.Later c') ∨
      ∀ c ∈ World.otpCodes x.world, c.id ≠ c'.id := by
  intro c' hc'
  rcases otpCodes_step hs with hsame | ⟨i, o, p, d, k, s, -, -, -, -, hcreate⟩ | ⟨f, hrows, hlater⟩
  · exact .inl ⟨c', hsame ▸ hc', .refl c'⟩
  · rcases (Table.mem_create hcreate).mp hc' with hc' | rfl
    · exact .inl ⟨c', hc', .refl c'⟩
    · refine .inr fun c hc hid => ?_
      have hclash := Table.create_no_clash hcreate hc
      simp [Constrained.clash, hid] at hclash
  · rw [Table.mem_def, hrows] at hc'
    obtain ⟨c, hc, rfl⟩ := List.mem_map.mp hc'
    exact .inl ⟨c, hc, hlater c⟩

theorem found_mem {op : Op} {o : Fate Supply} {a : Except Err op.Ans}
    (he : (service env).exec op o u = some (a, w)) (hread : readOf ⟨op, a⟩ = some otp) :
    otp ∈ u.otpCodes ∧ w.otpCodes = u.otpCodes := by
  cases op with
  | otpCodeFindFirst t p =>
      rcases a with e | found
      · cases hread
      · obtain rfl : found = some otp := hread
        obtain ⟨hmem, hw⟩ := found_newest he
        exact ⟨(Table.mem_filter.mp (List.mem_filter.mp hmem).1).1, hw⟩
  | _ => cases hread

/-- **What was read stays,** in a later version. -/
theorem seen_reachable (hx : Reachable env x) : ∀ p ∈ x.procs, ∀ c, readCode p.hist = some c →
    ∃ d ∈ World.otpCodes x.world, c.Later d := by
  induction hx with
  | refl => exact fun p hp => absurd hp List.not_mem_nil
  | @tail u v _ hl ih =>
      obtain ⟨l, hl⟩ := hl
      have hs := Config.next_step hl
      intro q hq c hread
      obtain ⟨j, hj⟩ := List.getElem?_of_mem hq
      have hkept {p : Process (service env)} (hp : p ∈ u.procs) (hread : readCode p.hist = some c) :
          ∃ d ∈ World.otpCodes v.world, c.Later d := by
        obtain ⟨d, hd, hlater⟩ := ih p hp c hread
        obtain ⟨d', hd', hlater'⟩ := later_step hs d hd
        exact ⟨d', hd', hlater.trans hlater'⟩
      rcases hs.hist_cases hj with ⟨p, hp, -, hh⟩ | hh | ⟨p, op, k, o, a, hp, -, -, he, -, hh⟩
      · exact hkept (List.mem_of_getElem? hp) (hh ▸ hread)
      · rw [hh] at hread
        cases hread
      · rw [hh] at hread
        cases hnow : readOf ⟨op, a⟩ with
        | none =>
            rw [readCode_cons hnow] at hread
            exact hkept (List.mem_of_getElem? hp) hread
        | some found =>
            rw [readCode_read hnow] at hread
            cases hread
            obtain ⟨hmem, hw⟩ := found_mem he hnow
            exact ⟨c, hw ▸ hmem, .refl c⟩

end Meduman.Otp
