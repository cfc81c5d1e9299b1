import Meduman.Otp.Codes

/-!
# The attempt cap

A verification reads the attempt count, compares, and counts a mismatch afterwards. Between its read
and its write others may read the same count.

* `wrongGuesses` : the calls that compared a wrong code with one
* `readersLeft` : the verifications that read a code unlocked and may still compare
* `counted` : an unlocked code is read only while the count leaves room for those, and no mismatch goes
  uncounted
* `Capped`, `capped_step` : what every step keeps then
* **`otp_cap`** : so the cap holds
* `otp_cap_exceeded` : otherwise it does not
-/

set_option autoImplicit false

namespace Meduman.Otp

open Effect

section Defs

variable {env : Env}

/-- How many wrong codes were compared with this one. -/
def wrongGuesses (x : Config (service env)) (id : Uuid) : Nat := x.countHist fun _ => guessed id

/-- How many calls incremented its attempt count. -/
def increments (x : Config (service env)) (id : Uuid) : Nat := x.countHist fun _ => incremented id

/-- The verification read this code while it was not locked. -/
def reads (id : Uuid) (p : Process (service env)) : Bool :=
  (openRead env p.hist).any fun c => c.id == id

/-- The verifications under way that read this code while it was not locked, and counted no mismatch. -/
def readersLeft (x : Config (service env)) (id : Uuid) : Nat :=
  x.procs.countP fun p => reads id p && p.running && !incremented id p.hist

/-- The code a query returns. -/
def Op.found (o : Fate Supply) (w : World) : Op → Option OtpCode
  | .otpCodeFindFirst t p => match backend.exec (.otpCodeFindFirst t p) o w with
      | some (.ok c, _) => c
      | _ => none
  | _ => none

/-- The operation counts a mismatch. -/
def Op.increments : Op → Bool
  | .otpCodeIncrementAttempts _ => true
  | _ => false

/-- The operation takes place. -/
def carried : Fate Supply → Bool
  | .failed _ => false
  | _ => true

variable (env)

/-- A code that is not locked is read only while its count and the readers left leave room for one more;
no increment fails, and no verification is cut off between a mismatch and its increment. -/
def counted : Policy (service env) := fun x l =>
  match l with
  | .perform i o => match x.pending i with
      | some (_, ⟨op, _⟩) => ((op.found o x.world).all fun c =>
          env.otpMaxAttempts ≤ c.attemptCount ||
            c.attemptCount + readersLeft x c.id < env.otpMaxAttempts) &&
          (!op.increments || carried o)
      | none => true
  | .crash i => (x.procs[i]?).all fun p => accounted p.hist
  | _ => true

end Defs

variable {env : Env} {c : Call} {h : Hist} {e : Event Op.Ans Err} {otp : OtpCode} {id : Uuid}
  {x y : Config (service env)} {l : Label (service env)}

/-! ## Who may still compare -/

/-- The verification compared a wrong code with this one, or may still do so. -/
def engaged (id : Uuid) (p : Process (service env)) : Bool :=
  reads id p && (p.running || incremented id p.hist)

theorem reads_iff {p : Process (service env)} :
    reads id p = true ↔ ∃ c, openRead env p.hist = some c ∧ c.id = id := by
  simp only [reads, Option.any_eq_true, beq_iff_eq]

/-- Only the read of an open code engages a verification. -/
theorem engaged_step (hs : x.Step y l) (id : Uuid) :
    y.procs.countP (engaged id) ≤ x.procs.countP (engaged id) ∨
      y.procs.countP (engaged id) ≤ x.procs.countP (engaged id) + 1 ∧
      ∃ i o p op k a otp, l = .perform i o ∧ x.procs[i]? = some p ∧ p.prog = some (.call op k) ∧
        (service env).exec op o x.world = some (a, y.world) ∧ readOf ⟨op, a⟩ = some otp ∧
        otp.id = id ∧ otp.attemptCount < env.otpMaxAttempts := by
  cases hs with
  | arrive _ _ hprocs =>
      refine .inl (Nat.le_of_eq ?_)
      rw [hprocs, List.countP_append, List.countP_singleton]
      rfl
  | crash hp _ hprocs =>
      refine .inl ?_
      rw [hprocs]
      refine countP_set_of_le hp fun hq => ?_
      obtain ⟨hreads, hinc⟩ := Bool.and_eq_true_iff.mp hq
      exact Bool.and_eq_true_iff.mpr ⟨hreads, Bool.or_eq_true_iff.mpr (.inr hinc)⟩
  | drift _ hprocs => exact .inl (Nat.le_of_eq (by rw [hprocs]))
  | @perform i o p op k a hp hk he hprocs =>
      rw [hprocs]
      by_cases hfound : ∃ otp, readOf ⟨op, a⟩ = some otp ∧ otp.id = id ∧
          otp.attemptCount < env.otpMaxAttempts
      · obtain ⟨otp, hread, hid, hopen⟩ := hfound
        exact .inr ⟨Nat.le_trans (countP_set_le hp) (Nat.add_le_add_left (Bool.toNat_le _) _),
          i, o, p, op, k, a, otp, rfl, hp, hk, he, hread, hid, hopen⟩
      · refine .inl (countP_set_of_le hp fun hq => ?_)
        obtain ⟨c, hc, hid⟩ := reads_iff.mp (Bool.and_eq_true_iff.mp hq).1
        have hreads : reads id p = true := reads_iff.mpr <| by
          cases hnow : readOf ⟨op, a⟩ with
          | none => exact ⟨c, by rwa [openRead_cons hnow] at hc, hid⟩
          | some found =>
              obtain ⟨hread, hopen⟩ := openRead_some hc
              rw [readCode_read hnow] at hread
              cases hread
              exact absurd ⟨c, hnow, hid, hopen⟩ hfound
        rw [engaged, hreads, Process.running, hk]
        rfl

/-! ## The invariant -/

/-- The calls that incremented a count are in the count, no more verifications than the cap are engaged
with a code, and nobody was cut off before an increment. -/
structure Capped (x : Config (service env)) : Prop where
  counted : ∀ c ∈ World.otpCodes x.world, increments x c.id ≤ c.attemptCount
  cap : ∀ id, x.procs.countP (engaged id) ≤ env.otpMaxAttempts
  uncut : ∀ p ∈ x.procs, p.prog = none → accounted p.hist = true

theorem capped_initial : Capped (⟨World.initial, []⟩ : Config (service env)) where
  counted _ hc := absurd hc (Table.not_mem_empty _)
  cap _ := Nat.zero_le _
  uncut _ hp := absurd hp List.not_mem_nil

/-- Whoever compared a wrong code with this one is engaged. -/
theorem engaged_of_guessed (hx : Reachable env x) (hI : Capped x) {p : Process (service env)}
    (hp : p ∈ x.procs) (hg : guessed id p.hist = true) : engaged id p = true := by
  have hreads := reads_iff.mpr ((known_reachable hx p hp id).1 hg)
  rw [engaged, hreads, Bool.true_and, Bool.or_eq_true_iff]
  cases hprog : p.prog with
  | none => exact .inr (accounted_iff.mp (hI.uncut p hp hprog) id hg)
  | some q =>
      cases q with
      | call op k => exact .inl (by rw [Process.running, hprog])
      | done r => exact .inr (accounted_iff.mp (kept_promise hx hp hprog).1 id hg)

theorem wrongGuesses_le (hx : Reachable env x) (hI : Capped x) :
    wrongGuesses x id ≤ x.procs.countP (engaged id) :=
  List.countP_mono_left fun _ hp => engaged_of_guessed hx hI hp

/-- **Whoever reads an open code** finds room for one more. -/
theorem room_of_read (hI : Capped x) {i : Nat} {o : Fate Supply} {p : Process (service env)} {op : Op}
    {k : Except Err op.Ans → Program Reply} {a : Except Err op.Ans} {w : World}
    (hP : counted env x (.perform i o) = true) (hp : x.procs[i]? = some p)
    (hk : p.prog = some (.call op k)) (he : (service env).exec op o x.world = some (a, w))
    (hread : readOf ⟨op, a⟩ = some otp) (hopen : otp.attemptCount < env.otpMaxAttempts) :
    x.procs.countP (engaged otp.id) < env.otpMaxAttempts := by
  have hfound : op.found o x.world = some otp := by
    replace he : backend.exec op o x.world = some (a, w) := he
    cases op with
    | otpCodeFindFirst t purpose =>
        rcases a with e | c
        · cases hread
        · cases hread
          simp only [Op.found, he]
    | _ => cases hread
  simp only [counted, Config.pending_eq hp hk, hfound, Option.all_some, Bool.and_eq_true,
    Bool.or_eq_true, decide_eq_true_eq] at hP
  have hroom := hP.1.resolve_left (Nat.not_le.mpr hopen)
  have hcount := hI.counted otp (found_mem he hread).1
  have hsplit : x.procs.countP (engaged otp.id) ≤ increments x otp.id + readersLeft x otp.id :=
    countP_le_add fun p _ hengaged => by
      cases hinc : incremented otp.id p.hist with
      | true => exact .inl hinc
      | false => simpa [engaged, hinc] using hengaged
  omega

/-- Nobody has incremented the count of a code that was not there. -/
theorem increments_new (hx : Reachable env x)
    (hnew : ∀ c ∈ World.otpCodes x.world, c.id ≠ id) : increments x id = 0 := by
  refine List.countP_eq_zero.mpr fun p hp hinc => ?_
  obtain ⟨c, hread, hid⟩ := (known_reachable hx p hp id).2 hinc
  obtain ⟨d, hd, hlater⟩ := seen_reachable hx p hp c hread
  exact hnew d hd (hlater.id.trans hid)

/-- **A step keeps the counts.** -/
theorem counted_step (hx : Reachable env x) (hI : Capped x) (hP : counted env x l = true)
    (hs : x.Step y l) : ∀ c ∈ World.otpCodes y.world, increments y c.id ≤ c.attemptCount := by
  intro c' hc'
  have hgeneral (hsame : increments y c'.id = increments x c'.id) :
      increments y c'.id ≤ c'.attemptCount := by
    rw [hsame]
    rcases earlier_step hs c' hc' with ⟨c, hc, hlater⟩ | hnew
    · exact Nat.le_trans (hlater.id ▸ hI.counted c hc) hlater.attempts
    · exact (increments_new hx hnew) ▸ Nat.zero_le _
  have hidle (hl : ∀ i o, l ≠ .perform i o) : increments y c'.id = increments x c'.id :=
    hs.countHist_eq (φ := fun _ => incremented c'.id) (fun _ => rfl) hl
  cases hs with
  | arrive _ _ _ => exact hgeneral (hidle fun _ _ h => by cases h)
  | crash _ _ _ => exact hgeneral (hidle fun _ _ h => by cases h)
  | drift _ _ => exact hgeneral (hidle fun _ _ h => by cases h)
  | @perform i o p op k a hp hk he hprocs =>
      have hcount := (Config.Step.perform hp hk he hprocs).countHist_perform
        (φ := fun _ => incremented c'.id) hp hk he
      rw [incremented_cons] at hcount
      cases hcounts : counts c'.id ⟨op, a⟩ with
      | false =>
          rw [hcounts, Bool.false_or] at hcount
          exact hgeneral (Nat.add_right_cancel hcount)
      | true =>
          -- the row counts the attempt
          cases op with
          | otpCodeIncrementAttempts id =>
              obtain rfl : id = c'.id := beq_iff_eq.mp hcounts
              simp only [counted, Config.pending_eq hp hk, Op.increments, Bool.not_true,
                Bool.false_or, Bool.and_eq_true] at hP
              obtain ⟨s, -, -, hw⟩ := Backend.exec_carried (B := backend) he fun m ho => by
                rw [ho] at hP
                cases hP.2
              rw [hw] at hc'
              obtain ⟨c, hc, hid, hone⟩ := incrementAttempts_row hc' rfl
              have hbefore := hid ▸ hI.counted c hc
              rw [hcounts, Bool.true_or, Bool.toNat_true] at hcount
              unfold increments at hbefore ⊢
              omega
          | _ => cases hcounts

/-- **Step lemma.** -/
theorem capped_step (hx : Reachable env x) (hI : Capped x) (hP : counted env x l = true)
    (hs : x.Step y l) : Capped y where
  counted := counted_step hx hI hP hs
  cap id := by
    rcases engaged_step hs id with hle |
      ⟨hle, i, o, p, op, k, a, otp, rfl, hp, hk, he, hread, rfl, hopen⟩
    · exact Nat.le_trans hle (hI.cap id)
    · exact Nat.le_trans hle (room_of_read hI hP hp hk he hread hopen)
  uncut q hq hcut := by
    cases hs with
    | arrive _ _ hprocs =>
        rw [hprocs] at hq
        rcases List.mem_append.mp hq with hq | hq
        · exact hI.uncut q hq hcut
        · rw [List.mem_singleton.mp hq] at hcut
          cases hcut
    | perform _ _ _ hprocs =>
        rw [hprocs] at hq
        rcases List.mem_or_eq_of_mem_set hq with hq | rfl
        · exact hI.uncut q hq hcut
        · cases hcut
    | crash hp _ hprocs =>
        rw [hprocs] at hq
        rcases List.mem_or_eq_of_mem_set hq with hq | rfl
        · exact hI.uncut q hq hcut
        · simpa [Otp.counted, hp] using hP
    | drift _ hprocs => exact hI.uncut q (hprocs ▸ hq) hcut

theorem capped_of_follows (hx : Follows (counted env) ⟨World.initial, []⟩ x) : Capped x :=
  hx.invariant (I := Capped) capped_initial fun hu hI hP hl =>
    capped_step hu hI hP (Config.next_step hl)

/-! ## What a verification consumes -/

/-- The verification succeeded with this code. -/
def Succeeded (p : Process (service env)) (id : Uuid) : Prop :=
  p.prog = some (.done (.ok .verified)) ∧ ∃ c, readCode p.hist = some c ∧ c.id = id

/-- A verification that succeeded consumed the code it read. -/
theorem Succeeded.matched (hx : Reachable env x) {p : Process (service env)} (hp : p ∈ x.procs)
    (hs : Succeeded p id) : ∃ input, p.call = .verify input ∧ Matched env input p.hist := by
  have hleaves : Leaves env p.call (.ok .verified) p.hist := kept_promise hx hp hs.1
  cases hcall : p.call with
  | verify input => exact ⟨input, rfl, hleaves.2 input hcall rfl⟩
  | issue input =>
      -- an issue reads no code
      obtain ⟨-, c, hread, -⟩ := hs
      rw [issue_reads hx hp hcall] at hread
      cases hread

theorem Succeeded.consumed (hx : Reachable env x) {p : Process (service env)} (hp : p ∈ x.procs)
    (hs : Succeeded p id) : consumed id p.hist = true := by
  obtain ⟨input, -, c, hread, hconsumed, -⟩ := hs.matched hx hp
  obtain ⟨-, d, hread', rfl⟩ := hs
  cases hread.symm.trans hread'
  exact hconsumed

/-- **Whoever consumes a code** finds fewer mismatches than the cap. -/
theorem wrongGuesses_lt (hx : Reachable env x) (hI : Capped x) {p : Process (service env)}
    (hp : p ∈ x.procs) {t : Int} {k : Except Err Nat → Program Reply}
    (hk : p.prog = some (.call (.otpCodeConsume id t) k)) :
    wrongGuesses x id < env.otpMaxAttempts := by
  obtain ⟨hread, hnone⟩ : (∃ c, openRead env p.hist = some c ∧ c.id = id) ∧
    ∀ id, guessed id p.hist = false := (kept_promise hx hp hk).1
  have hengaged : engaged id p = true := by
    rw [engaged, reads_iff.mpr hread, Process.running, hk]
    rfl
  exact Nat.lt_of_lt_of_le (countP_lt (fun _ hq => engaged_of_guessed hx hI hq) hp hengaged (hnone id))
    (hI.cap id)

/-- Comparisons are not undone. -/
theorem wrongGuesses_mono (hs : x.Step y l) : wrongGuesses x id ≤ wrongGuesses y id :=
  hs.countHist_mono (φ := fun _ => guessed id) (fun _ => rfl) fun _ _ _ hg => by
    rw [guessed_cons, hg, Bool.or_true]

/-- **The attempt cap holds.** In every run in which a code that is not locked is read only while its
count and the readers left leave room for one more, no increment fails, and none is cut off: no code is
compared with more wrong ones than the cap, and after that many no verification succeeds with it that
had not consumed it before. -/
theorem otp_cap (env : Env) {x y : Config (service env)}
    (hx : Follows (counted env) ⟨World.initial, []⟩ x) (hxy : Follows (counted env) x y) (id : Uuid) :
    wrongGuesses x id ≤ env.otpMaxAttempts ∧
    (env.otpMaxAttempts ≤ wrongGuesses x id → ∀ (i : Nat) (p : Process (service env)),
      y.procs[i]? = some p → Succeeded p id →
        ∃ q, x.procs[i]? = some q ∧ consumed id q.hist = true) := by
  refine ⟨Nat.le_trans (wrongGuesses_le hx.reaches (capped_of_follows hx))
    ((capped_of_follows hx).cap id), fun hfull i p hp hs => ?_⟩
  suffices hkept : env.otpMaxAttempts ≤ wrongGuesses y id ∧ ∀ (i : Nat) (p : Process (service env)),
      y.procs[i]? = some p → consumed id p.hist = true →
        ∃ q, x.procs[i]? = some q ∧ consumed id q.hist = true from
    hkept.2 i p hp (hs.consumed (Follows.reaches (hx.trans hxy)) (List.mem_of_getElem? hp))
  clear hs hp
  induction hxy with
  | refl => exact ⟨hfull, fun i p hp hc => ⟨p, hp, hc⟩⟩
  | @tail u v hrun hstep ih =>
      obtain ⟨l, hP, hl⟩ := hstep
      have hs := Config.next_step hl
      have hu : Follows (counted env) ⟨World.initial, []⟩ u := hx.trans hrun
      refine ⟨Nat.le_trans ih.1 (wrongGuesses_mono hs), fun i p hp hc => ?_⟩
      rcases consumed_step hs hp hc with ⟨q, hq, hc⟩ | ⟨q, t, k, o, -, hq, hk, -⟩
      · exact ih.2 i q hq hc
      · have hlt := wrongGuesses_lt hu.reaches (capped_of_follows hu) (List.mem_of_getElem? hq) hk
        exact absurd ih.1 (Nat.not_le.mpr hlt)

namespace Demo

/-- Five attempts, and a hash that hides nothing. -/
def settings : Env where
  hashCode code := code
  otpLength := 6
  otpTtlSeconds := 300
  otpMaxAttempts := 5

def sale : Uuid := ⟨"00000000-0000-4000-8004-000000000003", by decide⟩

def first : Uuid := ⟨"00000000-0000-4000-8004-000000000006", by decide⟩

def buyer : TransitionActor := { type := .user }

/-- A delivered sale. -/
def delivered : Transaction where
  id := sale
  publicLinkId := "link"
  sellerId := first
  buyerId := none
  title := "Phone"
  description := none
  amount := 1000
  currency := "NGN"
  status := .confirmationPending
  releaseRule := .buyerConfirmation
  expectedDeliveryDate := none
  feeModel := .sellerPays
  feeAmount := 0
  merchantId := none
  origin := .web

def serves (i n : Nat) : List (Label (service settings)) :=
  List.replicate n (.perform i (.served ⟨first, "123456", 0⟩))

def deliveries : Table Transaction := ⟨[delivered], List.pairwise_singleton _ _⟩

/-- A code is issued for it. -/
def issued : List (Label (service settings)) :=
  .drift (.others deliveries) ::
  .arrive (.issue ⟨sale, .deliveryConfirmation, buyer⟩) :: serves 0 8

/-- Process `i` verifies this code. -/
def guess (code : String) : Label (service settings) :=
  .arrive (.verify ⟨sale, .deliveryConfirmation, code, buyer⟩)

end Demo

/-- **Six parallel guesses are compared with one code.** -/
theorem otp_cap_exceeded : ¬ ∀ (env : Env) (x : Config (service env)), Reachable env x →
    ∀ id, wrongGuesses x id ≤ env.otpMaxAttempts := by
  intro hall
  have hrun : ((Config.run Guard.free (Demo.issued ++
      List.replicate 6 (Demo.guess "000000") ++
      (List.range 6).flatMap fun i => Demo.serves (i + 1) 3) ⟨World.initial, []⟩).map fun x =>
        decide (wrongGuesses x Demo.first = 6)) = some true := by decide
  obtain ⟨x, hx, htest⟩ := exists_of_run hrun
  have hcap := hall _ x hx Demo.first
  rw [of_decide_eq_true htest] at hcap
  exact absurd hcap (by decide)

/-- Five wrong guesses, two of them at once; the code is locked then. -/
theorem otp_cap_locked : ∃ x y : Config (service Demo.settings),
    Follows (counted Demo.settings) ⟨World.initial, []⟩ x ∧ Follows (counted Demo.settings) x y ∧
      wrongGuesses x Demo.first = 5 ∧ y.procs.length = x.procs.length + 1 ∧
      wrongGuesses x Demo.first ≤ 5 ∧
      ∀ (i : Nat) (p : Process (service Demo.settings)), y.procs[i]? = some p →
        Succeeded p Demo.first → ∃ q, x.procs[i]? = some q ∧ consumed Demo.first q.hist = true := by
  have hrun : ((Config.follow (counted Demo.settings) (Demo.issued ++
      Demo.guess "000000" :: Demo.guess "000001" :: (Demo.serves 1 1 ++ Demo.serves 2 5 ++
        Demo.serves 1 4) ++ [3, 4, 5].flatMap fun i => Demo.guess "000002" :: Demo.serves i 5)
      ⟨World.initial, []⟩).bind fun x =>
        (Config.follow (counted Demo.settings) (Demo.guess "123456" :: Demo.serves 6 3) x).map
          fun y => decide (wrongGuesses x Demo.first = 5 ∧ y.procs.length = x.procs.length + 1)) =
      some true := by decide
  obtain ⟨x, y, hx, hxy, htest⟩ := exists_of_follows hrun
  obtain ⟨hfive, hmore⟩ := of_decide_eq_true htest
  obtain ⟨hcap, hlocked⟩ := otp_cap Demo.settings hx hxy Demo.first
  exact ⟨x, y, hx, hxy, hfive, hmore, hcap, hlocked (Nat.le_of_eq hfive.symm)⟩

end Meduman.Otp
