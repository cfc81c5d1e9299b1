import Meduman.Otp.Cap

/-!
# Only the newest code, once

An issue retires the earlier codes and then creates its own; in between, another issue may have
created one.

* `IssuedBefore` : the codes in the order of their creation
* `spaced` : no code is created while another issue is between its retire and its create
* `Once` : a code is consumed once
* `Retired`, `Superseded` : what an issue has retired stays so, and only the newest code is unconsumed
* **`newest_once`** : a verification succeeds with a code that matches, once; and where issues are spaced,
  with the newest one
* `outlives_newer` : otherwise an older one does
-/

set_option autoImplicit false

namespace Meduman.Otp

open Effect

/-- The one code was created before the other. -/
def IssuedBefore (t : Table OtpCode) (a b : OtpCode) : Prop := [a, b].Sublist t.rows

/-- An issue under way is between its retire and its create, for this transaction and purpose. -/
def between {env : Env} (key : Uuid × OtpPurpose) (p : Process (service env)) : Bool :=
  p.running && task retires p.hist == some key

/-- When a code is created, no other issue for its transaction and purpose is between its retire and
its create. -/
def spaced (env : Env) : Policy (service env) := fun x l =>
  match l with
  | .perform i o => match x.pending i with
      | some (_, ⟨.otpCodeCreate d, _⟩) => o.supply.isNone ||
          (x.procs.eraseIdx i).all fun p => !between (d.transactionId, d.purpose) p
      | _ => true
  | _ => true

variable {env : Env} {id : Uuid} {u w : World} {x y : Config (service env)}
  {l : Label (service env)}

/-! ## Once -/

/-- The code is consumed. -/
def Consumed (w : World) (id : Uuid) : Prop := ∃ c ∈ w.otpCodes, c.id = id ∧ c.consumedAt ≠ none

theorem Consumed.step (hs : x.Step y l) (hc : Consumed x.world id) : Consumed y.world id := by
  obtain ⟨c, hc, hid, hconsumed⟩ := hc
  obtain ⟨c', hc', hlater⟩ := later_step hs c hc
  exact ⟨c', hc', hlater.id.trans hid, hlater.consumed hconsumed⟩

theorem Consumed.reaches (h : Reaches Guard.free x y) (hc : Consumed x.world id) :
    Consumed y.world id := by
  induction h with
  | refl => exact hc
  | tail _ hl ih => exact ih.step (Config.next_step hl.choose_spec)

/-- A consumed code is not consumed again. -/
theorem not_consumed_again {t : Int} {o : Fate Supply} (hc : Consumed u id) :
    backend.exec (.otpCodeConsume id t) o u ≠ some (.ok 1, w) := by
  intro h
  obtain ⟨⟨c, hcu, hid, hnone⟩, -⟩ := consume_one h
  obtain ⟨c', hc', hid', hconsumed⟩ := hc
  have heq : c' = c := Table.eq_of_clash hc' hcu (by simp [Constrained.clash, hid, hid'])
  exact hconsumed (heq ▸ hnone)

/-- What a call consumed is consumed, and by no other call. -/
structure Once (x : Config (service env)) : Prop where
  consumed : ∀ p ∈ x.procs, ∀ id, consumed id p.hist = true → Consumed x.world id
  once : ∀ {i j : Nat} {p q : Process (service env)} {id : Uuid}, x.procs[i]? = some p →
    x.procs[j]? = some q → Otp.consumed id p.hist = true → Otp.consumed id q.hist = true → i = j

theorem once_initial : Once (⟨World.initial, []⟩ : Config (service env)) where
  consumed _ hp := absurd hp List.not_mem_nil
  once h := by simp at h

theorem once_step (hI : Once x) (hs : x.Step y l) : Once y where
  consumed q hq id hv := by
    obtain ⟨j, hj⟩ := List.getElem?_of_mem hq
    rcases consumed_step hs hj hv with ⟨p, hp, hv⟩ | ⟨p, t, k, o, -, -, -, he⟩
    · exact (hI.consumed p (List.mem_of_getElem? hp) id hv).step hs
    · exact (consume_one he).2
  once hp hq hvp hvq := by
    rcases consumed_step hs hp hvp with ⟨p', hp', hvp⟩ | ⟨p', t, k, o, hl, -, -, he⟩
    · rcases consumed_step hs hq hvq with ⟨q', hq', hvq⟩ | ⟨q', t, k, o, -, -, -, he⟩
      · exact hI.once hp' hq' hvp hvq
      · exact absurd he
          (not_consumed_again (hI.consumed p' (List.mem_of_getElem? hp') _ hvp))
    · rcases consumed_step hs hq hvq with ⟨q', hq', hvq⟩ | ⟨q', t', k', o', hl', -⟩
      · exact absurd he
          (not_consumed_again (hI.consumed q' (List.mem_of_getElem? hq') _ hvq))
      · cases hl.symm.trans hl'
        rfl

theorem once_reachable (hx : Reachable env x) : Once x := by
  induction hx with
  | refl => exact once_initial
  | tail _ hl ih => exact once_step ih (Config.next_step hl.choose_spec)

/-! ## Only the newest -/

/-- Every code of the transaction and purpose is consumed. -/
def Retired (w : World) (key : Uuid × OtpPurpose) : Prop :=
  ∀ c ∈ w.otpCodes, (c.transactionId, c.purpose) = key → c.consumedAt ≠ none

/-- Of the codes of a transaction and purpose, only the one created last may be unconsumed. -/
def Superseded (w : World) : Prop :=
  w.otpCodes.rows.Pairwise fun a b => a.Alike b → a.consumedAt ≠ none

/-- Between its retire and its create, an issue finds every code consumed. -/
structure Spaced (x : Config (service env)) : Prop where
  superseded : Superseded x.world
  retired : ∀ p ∈ x.procs, ∀ key, between key p = true → Retired x.world key

theorem spaced_initial : Spaced (⟨World.initial, []⟩ : Config (service env)) where
  superseded := .nil
  retired _ hp := absurd hp List.not_mem_nil

/-- An issue that creates a code has just retired the earlier ones. -/
theorem retired_of_create (hx : Reachable env x) (hI : Spaced x) {p : Process (service env)}
    (hp : p ∈ x.procs) {d : OtpCodeCreate} {k : Except Err OtpCode → Program Reply}
    (hk : p.prog = some (.call (.otpCodeCreate d) k)) :
    between (d.transactionId, d.purpose) p = true ∧
      Retired x.world (d.transactionId, d.purpose) := by
  have howes : task retires p.hist = some (d.transactionId, d.purpose) := (kept_promise hx hp hk).1
  have hbetween : between (d.transactionId, d.purpose) p = true := by
    rw [between, Process.running, hk, howes, beq_self_eq_true]
    rfl
  exact ⟨hbetween, hI.retired p hp _ hbetween⟩

theorem superseded_step (hx : Reachable env x) (hI : Spaced x) (hs : x.Step y l) :
    Superseded y.world := by
  rcases otpCodes_step hs with hsame | ⟨i, o, p, d, k, s, -, hp, hk, -, hcreate⟩ | ⟨f, hrows, hlater⟩
  · rw [Superseded, hsame]
    exact hI.superseded
  · have hretired := (retired_of_create hx hI (List.mem_of_getElem? hp) hk).2
    rw [Superseded, Table.rows_create hcreate, List.pairwise_append]
    refine ⟨hI.superseded, List.pairwise_singleton _ _, fun a ha b hb halike => ?_⟩
    cases List.mem_singleton.mp hb
    exact hretired a ha (Prod.ext halike.1 halike.2)
  · rw [Superseded, hrows, List.pairwise_map]
    refine hI.superseded.imp ?_
    intro a b hab halike
    exact (hlater a).consumed (hab ⟨(hlater a).alike.1.trans (halike.1.trans (hlater b).alike.1.symm),
      (hlater a).alike.2.trans (halike.2.trans (hlater b).alike.2.symm)⟩)

/-- What is retired stays so, unless a code of that transaction and purpose is created. -/
theorem Retired.step {key : Uuid × OtpPurpose} (hs : x.Step y l) (hr : Retired x.world key)
    (hcreate : ∀ (i : Nat) (o : Fate Supply) (p : Process (service env)) (d : OtpCodeCreate)
      (k : Except Err OtpCode → Program Reply), l = .perform i o → x.procs[i]? = some p →
      p.prog = some (.call (.otpCodeCreate d) k) → o.supply.isSome = true →
      (d.transactionId, d.purpose) ≠ key) :
    Retired y.world key := by
  intro c' hc' hkey
  rcases otpCodes_step hs with hsame | ⟨i, o, p, d, k, s, hl, hp, hk, ho, hnew⟩ | ⟨f, hrows, hlater⟩
  · exact hr c' (hsame ▸ hc') hkey
  · rcases (Table.mem_create hnew).mp hc' with hc' | rfl
    · exact hr c' hc' hkey
    · exact absurd hkey (hcreate i o p d k hl hp hk (by rw [ho]; rfl))
  · rw [Table.mem_def, hrows] at hc'
    obtain ⟨c, hc, rfl⟩ := List.mem_map.mp hc'
    refine (hlater c).consumed (hr c hc ?_)
    rw [← hkey, (hlater c).alike.1, (hlater c).alike.2]

/-- **What an issue retired** stays so until it creates its code. -/
theorem retired_step (hI : Spaced x) (hP : spaced env x l = true)
    (hs : x.Step y l) {q : Process (service env)} (hq : q ∈ y.procs) {key : Uuid × OtpPurpose}
    (hb : between key q = true) : Retired y.world key := by
  obtain ⟨hrunning, howes⟩ := Bool.and_eq_true_iff.mp hb
  have howes : task retires q.hist = some key := beq_iff_eq.mp howes
  obtain ⟨j, hj⟩ := List.getElem?_of_mem hq
  have hlive : q.prog ≠ none := fun hnone => by
    rw [Process.running, hnone] at hrunning
    cases hrunning
  -- another issue that creates a code for them is not spaced
  have hother (hqx : x.procs[j]? = some q) : ∀ (i : Nat) (o : Fate Supply) (p : Process (service env))
      (d : OtpCodeCreate) (k : Except Err OtpCode → Program Reply), l = .perform i o →
      x.procs[i]? = some p → p.prog = some (.call (.otpCodeCreate d) k) → o.supply.isSome = true →
      y.procs[i]? ≠ x.procs[i]? → (d.transactionId, d.purpose) ≠ key := by
    rintro i o p d k rfl hp hk ho hmoved rfl
    have hij : j ≠ i := fun hij => hmoved (by rw [← hij, hj, hqx])
    simp only [spaced, Config.pending_eq hp hk, Option.isNone_eq_false_iff.mpr ho, Bool.false_or,
      List.all_eq_true] at hP
    have hfree := hP q (List.mem_eraseIdx_iff_getElem?.mpr ⟨j, hij, hqx⟩)
    rw [hb] at hfree
    cases hfree
  rcases hs.live_cases hj hlive with hqx | ⟨c, rfl⟩ | ⟨p, op, k, i, a, hp, hk, rfl, he, rfl⟩
  · refine (hI.retired q (List.mem_of_getElem? hqx) key hb).step hs fun i o p d k hl hp hk ho => ?_
    refine hother hqx i o p d k hl hp hk ho fun hsame => ?_
    subst hl
    cases hs with
    | @perform _ _ p' op k' a hp' hk' he hprocs =>
        rw [hprocs, List.getElem?_set_self (List.getElem?_eq_some_iff.mp hp').1, hp'] at hsame
        have hgrown := congrArg (fun q => q.hist.length) (Option.some.inj hsame)
        simp at hgrown
  · cases howes
  · rw [task_cons] at howes
    cases hleaves : retires ⟨op, a⟩ with
    | none =>
        rw [hleaves] at howes
        have hbefore : between key p = true := by
          rw [between, Process.running, hk, Bool.true_and, beq_iff_eq]
          exact howes
        refine (hI.retired p (List.mem_of_getElem? hp) key hbefore).step hs
          fun i' o' p' d k' hl hp' hk' _ => ?_
        cases hl
        cases hp.symm.trans hp'
        cases hk.symm.trans hk'
        cases hleaves
    | some owed =>
        rw [hleaves] at howes
        obtain rfl : owed = some key := howes
        cases op with
        | otpCodeRetire t purpose at' =>
            rcases a with e | n
            · cases hleaves
            · cases hleaves
              intro c hc hkey
              exact retire_all he c hc (congrArg Prod.fst hkey) (congrArg Prod.snd hkey)
        | _ => cases hleaves

/-- **Step lemma.** -/
theorem spaced_step (hx : Reachable env x) (hI : Spaced x) (hP : spaced env x l = true)
    (hs : x.Step y l) : Spaced y where
  superseded := superseded_step hx hI hs
  retired _ hq _ hb := retired_step hI hP hs hq hb

theorem Superseded.older {a b : OtpCode} (h : Superseded w) (hab : IssuedBefore w.otpCodes a b)
    (halike : a.Alike b) : a.consumedAt ≠ none :=
  List.rel_of_pairwise_cons (h.sublist hab) List.mem_cons_self halike

theorem Superseded.unconsumed {a b : OtpCode} (h : Superseded w) (ha : a ∈ w.otpCodes)
    (hb : b ∈ w.otpCodes) (halike : a.Alike b) (hanone : a.consumedAt = none)
    (hbnone : b.consumedAt = none) : a = b := by
  have hsym : Std.Symm fun a b : OtpCode => a.Alike b → a.consumedAt ≠ none ∨ b.consumedAt ≠ none :=
    ⟨fun a b hab hba => (hab ⟨hba.1.symm, hba.2.symm⟩).symm⟩
  have heither : w.otpCodes.rows.Pairwise fun a b : OtpCode =>
      a.Alike b → a.consumedAt ≠ none ∨ b.consumedAt ≠ none :=
    h.imp fun hab halike => .inl (hab halike)
  by_contra hne
  exact (heither.forall ha hb hne halike).elim (· hanone) (· hbnone)

/-- A code that is consumed is consumed by nobody else. -/
theorem consumed_before (hc : Consumed x.world id) (h : Reaches Guard.free x y) {i : Nat}
    {p : Process (service env)} (hp : y.procs[i]? = some p) (hv : consumed id p.hist = true) :
    ∃ q, x.procs[i]? = some q ∧ consumed id q.hist = true := by
  induction h generalizing i p with
  | refl => exact ⟨p, hp, hv⟩
  | tail hrun hl ih =>
      rcases consumed_step (Config.next_step hl.choose_spec) hp hv with ⟨q, hq, hv⟩ |
        ⟨q, t, k, o, -, -, -, he⟩
      · exact ih hq hv
      · exact absurd he (not_consumed_again (hc.reaches hrun))

/-- **Only the newest code is valid, once.** A verification that succeeds does so with an issued code of
its transaction and purpose that is the submitted one, and no other succeeds with that code. In every
run in which no code is created while another issue is between its retire and its create: at most one
code is unconsumed, and once a later code was created, only a verification that had consumed the earlier
one before succeeds with it. -/
theorem newest_once (env : Env) {x : Config (service env)} :
    (Reachable env x →
      (∀ p ∈ x.procs, ∀ input, p.call = .verify input → p.prog = some (.done (.ok .verified)) →
        ∃ c ∈ World.otpCodes x.world, Succeeded p c.id ∧ c.transactionId = input.transactionId ∧
          c.purpose = input.purpose ∧ matchesCode env input.code c = true) ∧
      ∀ (i j : Nat) (p q : Process (service env)) (id : Uuid), x.procs[i]? = some p →
        x.procs[j]? = some q → Succeeded p id → Succeeded q id → i = j) ∧
    (Follows (spaced env) ⟨World.initial, []⟩ x →
      (∀ a ∈ World.otpCodes x.world, ∀ b ∈ World.otpCodes x.world, a.Alike b →
        a.consumedAt = none → b.consumedAt = none → a = b) ∧
      ∀ a b, IssuedBefore (World.otpCodes x.world) a b → a.Alike b →
        ∀ y, Reaches Guard.free x y → ∀ (i : Nat) (p : Process (service env)),
          y.procs[i]? = some p → Succeeded p a.id →
            ∃ q, x.procs[i]? = some q ∧ consumed a.id q.hist = true) := by
  refine ⟨fun hx => ⟨fun p hp input hcall hdone => ?_, fun i j p q id hp hq hsp hsq => ?_⟩,
    fun hx => ?_⟩
  · obtain ⟨c, hread, -, ht, hpurpose, hmatch⟩ :=
      (kept_promise hx hp hdone : Leaves env p.call _ p.hist).2 input hcall rfl
    obtain ⟨d, hd, hlater⟩ := seen_reachable hx p hp c hread
    refine ⟨d, hd, ⟨hdone, c, hread, hlater.id.symm⟩, hlater.alike.1.symm.trans ht,
      hlater.alike.2.symm.trans hpurpose, ?_⟩
    rw [matchesCode, hlater.hash]
    exact hmatch
  · exact (once_reachable hx).once hp hq (hsp.consumed hx (List.mem_of_getElem? hp))
      (hsq.consumed hx (List.mem_of_getElem? hq))
  · have hlast := (hx.invariant (I := Spaced) spaced_initial fun hu hI hP hl =>
      spaced_step hu hI hP (Config.next_step hl)).superseded
    refine ⟨fun a ha b hb => hlast.unconsumed ha hb, fun a b hab halike y hy i p hp hs => ?_⟩
    have hconsumed : Consumed x.world a.id :=
      ⟨a, hab.subset List.mem_cons_self, rfl, hlast.older hab halike⟩
    exact consumed_before hconsumed hy hp
      (hs.consumed (Relation.ReflTransGen.trans hx.reaches hy) (List.mem_of_getElem? hp))

namespace Demo

def second : Uuid := ⟨"00000000-0000-4000-8004-000000000007", by decide⟩

/-- Process `i` goes on with an issue, whose code gets this identifier. -/
def issues (i n : Nat) (id : Uuid) : List (Label (service settings)) :=
  List.replicate n (.perform i (.served ⟨id, "123456", 0⟩))

/-- Two issues retire the earlier codes, and the first creates its own. -/
def overlap : List (Label (service settings)) :=
  .drift (.others deliveries) ::
  .arrive (.issue ⟨sale, .deliveryConfirmation, buyer⟩) ::
  .arrive (.issue ⟨sale, .deliveryConfirmation, buyer⟩) ::
  issues 0 3 first ++ issues 1 3 second ++ issues 0 5 first

/-- An unconsumed code for the sale. -/
def fresh (id : Uuid) : OtpCode where
  id := id
  transactionId := sale
  codeHash := "123456"
  purpose := .deliveryConfirmation
  expiresAt := 300000
  attemptCount := 0
  consumedAt := none
  createdAt := 0

/-- Process `i` consumed this code. -/
def consumedBy (x : Config (service settings)) (i : Nat) (id : Uuid) : Bool :=
  x.procs[i]?.any fun p => consumed id p.hist

/-- Process `i` verified this code. -/
def verifiedBy (x : Config (service settings)) (i : Nat) (id : Uuid) : Bool :=
  x.procs[i]?.any fun p => (readCode p.hist).any (fun c => c.id == id) && match p.prog with
    | some (.done (.ok .verified)) => true
    | _ => false

theorem succeeded_of_verifiedBy {x : Config (service settings)} {i : Nat} {id : Uuid}
    (h : verifiedBy x i id = true) : ∃ p, x.procs[i]? = some p ∧ Succeeded p id := by
  obtain ⟨p, hp, hv⟩ := (Option.any_eq_true _ _).mp h
  obtain ⟨hread, hdone⟩ := Bool.and_eq_true_iff.mp hv
  obtain ⟨c, hc, hid⟩ := (Option.any_eq_true _ _).mp hread
  refine ⟨p, hp, ?_, c, hc, beq_iff_eq.mp hid⟩
  split at hdone
  · assumption
  · cases hdone

end Demo

set_option maxRecDepth 20000 in
/-- **Overlapping issues leave two codes unconsumed, and the older one verifies.** -/
theorem outlives_newer :
    (¬ ∀ (env : Env) (x : Config (service env)), Reachable env x → x.atRest = true →
      ∀ a ∈ World.otpCodes x.world, ∀ b ∈ World.otpCodes x.world, a.Alike b →
        a.consumedAt = none → b.consumedAt = none → a = b) ∧
    ¬ ∀ (env : Env) (x y : Config (service env)), Reachable env x → Reaches Guard.free x y →
      ∀ a b, IssuedBefore (World.otpCodes x.world) a b → a.Alike b →
        ∀ (i : Nat) (p : Process (service env)), y.procs[i]? = some p → Succeeded p a.id →
          ∃ q, x.procs[i]? = some q ∧ consumed a.id q.hist = true := by
  constructor
  · intro hall
    have hrun : ((Config.run Guard.free (Demo.overlap ++ Demo.issues 1 5 Demo.second)
        ⟨World.initial, []⟩).map fun x => x.atRest && decide ((World.otpCodes x.world).rows =
          [Demo.fresh Demo.first, Demo.fresh Demo.second])) = some true := by decide
    obtain ⟨x, hx, htest⟩ := exists_of_run hrun
    obtain ⟨hrest, hrows⟩ := Bool.and_eq_true_iff.mp htest
    have hmem : ∀ c, c ∈ (World.otpCodes x.world) ↔ c ∈ [Demo.fresh Demo.first,
        Demo.fresh Demo.second] := fun c => by rw [Table.mem_def, of_decide_eq_true hrows]
    have heq := hall _ x hx hrest _ ((hmem (Demo.fresh Demo.first)).mpr (by simp)) _
      ((hmem (Demo.fresh Demo.second)).mpr (by simp)) ⟨rfl, rfl⟩ rfl rfl
    exact absurd (congrArg OtpCode.id heq) (by decide)
  · intro hall
    have hrun : ((Config.run Guard.free (Demo.overlap ++ Demo.guess "123456" :: Demo.serves 2 4 ++
        Demo.issues 1 5 Demo.second) ⟨World.initial, []⟩).bind fun x =>
          (Config.run Guard.free (Demo.serves 2 2) x).map fun y =>
            decide ((World.otpCodes x.world).rows = [Demo.fresh Demo.first,
              Demo.fresh Demo.second]) && !Demo.consumedBy x 2 Demo.first &&
              Demo.verifiedBy y 2 Demo.first) = some true := by decide
    obtain ⟨x, y, hx, hy, htest⟩ := exists_of_runs hrun
    simp only [Bool.and_eq_true, Bool.not_eq_true', decide_eq_true_eq] at htest
    obtain ⟨⟨hrows, hbefore⟩, hafter⟩ := htest
    obtain ⟨p, hp, hs⟩ := Demo.succeeded_of_verifiedBy hafter
    obtain ⟨q, hq, hc⟩ := hall _ x y hx hy (Demo.fresh Demo.first) (Demo.fresh Demo.second)
      (by simp only [IssuedBefore, hrows, List.Sublist.refl]) ⟨rfl, rfl⟩ 2 p hp hs
    rw [Demo.consumedBy, hq, Option.any_some] at hbefore
    exact absurd (hbefore.symm.trans hc) (by decide)

set_option maxRecDepth 20000 in
/-- One issue after the other; the second code verifies. -/
theorem newest_once_reissued : ∃ x : Config (service Demo.settings),
    (Follows (spaced Demo.settings) ⟨World.initial, []⟩ x ∧ Demo.verifiedBy x 2 Demo.second = true) ∧
      (∀ p ∈ x.procs, ∀ input, p.call = .verify input → p.prog = some (.done (.ok .verified)) →
        ∃ c ∈ World.otpCodes x.world, Succeeded p c.id ∧ c.transactionId = input.transactionId ∧
          c.purpose = input.purpose ∧ matchesCode Demo.settings input.code c = true) ∧
      ∀ a ∈ World.otpCodes x.world, ∀ b ∈ World.otpCodes x.world, a.Alike b →
        a.consumedAt = none → b.consumedAt = none → a = b := by
  have hrun : ((Config.follow (spaced Demo.settings) (Demo.issued ++
      .arrive (.issue ⟨Demo.sale, .deliveryConfirmation, Demo.buyer⟩) ::
      Demo.issues 1 8 Demo.second ++ Demo.guess "123456" :: Demo.serves 2 6)
      ⟨World.initial, []⟩).map fun x => Demo.verifiedBy x 2 Demo.second) = some true := by decide
  obtain ⟨x, hx, htest⟩ := exists_of_follow hrun
  exact ⟨x, ⟨hx, htest⟩, ((newest_once Demo.settings).1 hx.reaches).1,
    ((newest_once Demo.settings).2 hx).1⟩

end Meduman.Otp
