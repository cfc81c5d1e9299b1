import Meduman.Linking.Claims

/-!
# One code, one merge

* `Minted`, `minted_step` : an account has one live code, and none while a mint is about to create one
* **`links_once`** : where calls are orderly, a code leads to one merge, and only while it is live
* `linked_twice` : two chats that type one code at the same time are both merged
-/

set_option autoImplicit false

namespace Meduman.Linking

open Effect Chat

variable {env : Env} {x y : Config (service env)} {l : Label (service env)}
  {p q : Process (service env)} {op : Op} {o : Fate Supply} {i j : Nat} {targetUserId : Uuid}

/-! ## The live code of an account -/

/-- An account has one live code, and none while a mint of its own is about to create one. -/
structure Minted (x : Config (service env)) : Prop where
  one : ∀ {t : Uuid} {a b : ChatLinkRequest}, a ∈ World.linkRequests x.world →
    b ∈ World.linkRequests x.world → isPendingOf t a = true → isPendingOf t b = true → a = b
  cleared : ∀ p ∈ x.procs, ∀ t, clears p t = true → ∀ r ∈ World.linkRequests x.world,
    isPendingOf t r = false
  alone : ∀ {i j : Nat} {p q : Process (service env)} {t : Uuid}, x.procs[i]? = some p →
    x.procs[j]? = some q → clears p t = true → clears q t = true → i = j

theorem minted_initial : Minted (⟨World.initial, []⟩ : Config (service env)) where
  one ha := absurd ha (Table.not_mem_empty _)
  cleared _ hp := absurd hp List.not_mem_nil
  alone h := by simp at h

theorem isPendingOf_iff {r : ChatLinkRequest} :
    isPendingOf targetUserId r = true ↔ r.targetUserId = targetUserId ∧ r.status = .pending := by
  simp [isPendingOf]

theorem clears_iff : clears p targetUserId = true ↔
    running p = true ∧ phase p.hist = .clearing ∧ p.call = .mint targetUserId := by
  unfold clears
  split
  · rename_i t hcall
    rw [hcall]
    simp [and_assoc]
  · rename_i hno
    simp only [Bool.and_false, Bool.false_eq_true, false_iff, not_and]
    exact fun _ _ => hno targetUserId

theorem clearing_step {e : Event Op.Ans Err} {h : Hist} (hr : phase (e :: h) = .clearing) :
    (phase h = .clearing ∧ ∀ d, e.op ≠ .linkRequestCreate d) ∨
      ∃ target t n, e = ⟨.linkRequestCancel target t, .ok n⟩ := by
  rw [phase_cons] at hr
  generalize phase h = ph at hr ⊢
  by_cases hcreate : ∃ d, e.op = .linkRequestCreate d
  · obtain ⟨d, hd⟩ := hcreate
    obtain ⟨op, a⟩ := e
    cases hd
    cases ph <;> cases hr
  · have hno : ∀ d, e.op ≠ .linkRequestCreate d := fun d hd => hcreate ⟨d, hd⟩
    revert hr
    fun_cases Phase.step ph e <;> intro hr
    case case1 => exact .inl ⟨hr, hno⟩
    case case2 target t n => exact .inr ⟨target, t, n, rfl⟩
    case case17 => exact .inl ⟨hr, hno⟩
    all_goals cases hr

/-- **Who clears the way for a code** did so before, or has just superseded the earlier ones. -/
theorem clears_step (hx : Reachable env x) (hs : x.Step y l) (hq : y.procs[j]? = some q)
    (hclears : clears q targetUserId = true) :
    (∃ p, x.procs[j]? = some p ∧ clears p targetUserId = true ∧
      ∀ o p op k, l = .perform j o → x.procs[j]? = some p → p.prog = some (.call op k) →
        ∀ d, op ≠ .linkRequestCreate d) ∨
    ∃ o p t n k, l = .perform j o ∧ x.procs[j]? = some p ∧
      p.prog = some (.call (.linkRequestCancel targetUserId t) k) ∧
      backend.exec (.linkRequestCancel targetUserId t) o x.world = some (.ok n, y.world) := by
  obtain ⟨hrun, hphase, hcall⟩ := clears_iff.mp hclears
  rcases process_cases hs hq with ⟨p, hp, hcall', hhist, hrunning, hidle⟩ | hnil |
    ⟨o, p, op, k, a, rfl, hp, hk, he, hcall', hhist⟩
  · rw [hhist] at hphase
    exact .inl ⟨p, hp, clears_iff.mpr ⟨hrunning hrun, hphase, hcall' ▸ hcall⟩,
      fun o _ _ _ hl => absurd hl (hidle o)⟩
  · rw [hnil] at hphase
    cases hphase
  · rw [hhist] at hphase
    rcases clearing_step hphase with ⟨hphase, hno⟩ | ⟨target, t, n, heq⟩
    · refine .inl ⟨p, hp, clears_iff.mpr ⟨running_of hk, hphase, hcall' ▸ hcall⟩, ?_⟩
      intro o p' op' k' _ hp' hk'
      cases hp.symm.trans hp'
      cases hk.symm.trans hk'
      exact hno
    · cases heq
      have hdoes : p.call = .mint target := does_of_reaches hx (List.mem_of_getElem? hp) hk
      cases hdoes.symm.trans (hcall'.symm.trans hcall)
      exact .inr ⟨o, p, t, n, k, rfl, hp, hk, he⟩

/-- What the policy asks of whoever promotes a request. -/
theorem orderly_promote {id : Uuid} {k : Except Err Unit → Program Reply}
    (hP : orderly env x (.perform i o) = true) (hp : x.procs[i]? = some p)
    (hk : p.prog = some (.call (.linkRequestUpdate id .promote) k)) {r : ChatLinkRequest}
    (hr : r ∈ World.linkRequests x.world) (hid : r.id = id) :
    unminted x r.targetUserId = true ∧
      ∀ c ∈ World.linkRequests x.world, isPendingOf r.targetUserId c = false := by
  simp only [orderly, Config.pending_eq hp hk] at hP
  have hrow := List.all_eq_true.mp hP r hr
  simp only [hid, bne_self_eq_false, Bool.false_or, Bool.and_eq_true] at hrow
  exact ⟨hrow.1, fun c hc => by simpa using List.all_eq_true.mp hrow.2 c hc⟩

theorem not_clears (h : unminted x targetUserId = true) (hp : p ∈ x.procs) :
    clears p targetUserId ≠ true := by
  have hproc := List.all_eq_true.mp h p hp
  simpa using hproc

/-- **Where a live code comes from:** it was live, or its mint has just created it, or it was promoted. -/
theorem pending_origin (hx : Reachable env x) (hs : x.Step y l) {r : ChatLinkRequest}
    (hr : r ∈ World.linkRequests y.world) (hpending : isPendingOf targetUserId r = true) :
    (∃ r₀ ∈ World.linkRequests x.world, r₀.id = r.id ∧ isPendingOf targetUserId r₀ = true) ∨
    (∃ i o p d k, ∃ s : Supply, l = .perform i o ∧ x.procs[i]? = some p ∧
      p.prog = some (.call (.linkRequestCreate d) k) ∧ clears p targetUserId = true ∧
      o.supply = some s ∧ r = d.row s.id) ∨
    ∃ i o p r₀ k, l = .perform i o ∧ x.procs[i]? = some p ∧ r₀ ∈ World.linkRequests x.world ∧
      p.prog = some (.call (.linkRequestUpdate r₀.id .promote) k) ∧ r₀.targetUserId = targetUserId ∧
      r = LinkRequestUpdate.promote.apply r₀ := by
  obtain ⟨htarget, hstatus⟩ := isPendingOf_iff.mp hpending
  rcases hs.world_cases with hw | ⟨i, o, p, op, k, a, rfl, hp, hk, he, -⟩ | ⟨m, -, hm⟩
  · exact .inl ⟨r, hw ▸ hr, rfl, hpending⟩
  · replace he : backend.exec op o x.world = some (a, y.world) := he
    have hmem := List.mem_of_getElem? hp
    rcases row_origin he hr with ⟨r₀, hr₀, n, rfl⟩ | ⟨r₀, -, t, rfl⟩ | ⟨d, s, rfl, ho, -, rfl⟩ |
      ⟨r₀, hr₀, d, rfl, hd, rfl⟩
    · exact .inl ⟨r₀, hr₀, rfl, hpending⟩
    · cases hstatus
    · have hdoes : p.call = .mint d.targetUserId := does_of_reaches hx hmem hk
      have hclears : clears p targetUserId = true :=
        clears_iff.mpr ⟨running_of hk, promises_of_reaches hx hmem hk, htarget ▸ hdoes⟩
      exact .inr (.inl ⟨i, o, p, d, k, s, rfl, hp, hk, hclears, ho, rfl⟩)
    · have hJ := promises_of_reaches hx hmem hk
      cases d with
      | countAttempt => exact absurd rfl hd
      | consumeAs data now =>
          obtain ⟨r₁, identity, -, ⟨-, hno⟩ | ⟨-, hcompleted⟩, -⟩ := hJ
          · exact absurd hstatus hno
          · exact absurd (hstatus.symm.trans hcompleted) (by decide)
      | promote => exact .inr (.inr ⟨i, o, p, r₀, k, rfl, hp, hr₀, hk, htarget, rfl⟩)
      | reject by' now => cases hstatus
      | complete by' now => cases hstatus
  · exact .inl ⟨r, drift_requests hm ▸ hr, rfl, hpending⟩

/-- **A step keeps the live codes apart.** -/
theorem minted_step (hx : Reachable env x) (hI : Minted x) (hP : orderly env x l = true)
    (hs : x.Step y l) : Minted y where
  one {t a b} ha hb hpa hpb := by
    rcases pending_origin hx hs ha hpa with ⟨a₀, ha₀, hida, hpa₀⟩ |
      ⟨i, o, p, d, k, s, rfl, hp, hk, hclears, ho, rfl⟩ | ⟨i, o, p, a₀, k, rfl, hp, ha₀, hk, rfl, rfl⟩
    · rcases pending_origin hx hs hb hpb with ⟨b₀, hb₀, hidb, hpb₀⟩ |
        ⟨i, o, p, d, k, s, rfl, hp, hk, hclears, ho, rfl⟩ |
        ⟨i, o, p, b₀, k, rfl, hp, hb₀, hk, rfl, rfl⟩
      · have hsame := hI.one ha₀ hb₀ hpa₀ hpb₀
        exact request_eq ha hb (by rw [← hida, ← hidb, hsame])
      · exact absurd hpa₀ (by rw [hI.cleared p (List.mem_of_getElem? hp) t hclears a₀ ha₀]; decide)
      · exact absurd hpa₀ (by rw [(orderly_promote hP hp hk hb₀ rfl).2 a₀ ha₀]; decide)
    · rcases pending_origin hx hs hb hpb with ⟨b₀, hb₀, -, hpb₀⟩ |
        ⟨i', o', p', d', k', s', hl, hp', hk', -, ho', rfl⟩ |
        ⟨i', o', p', b₀, k', hl, hp', -, hk', -, rfl⟩
      · exact absurd hpb₀ (by rw [hI.cleared p (List.mem_of_getElem? hp) t hclears b₀ hb₀]; decide)
      · cases hl
        cases hp.symm.trans hp'
        cases hk.symm.trans hk'
        cases ho.symm.trans ho'
        rfl
      · cases hl
        cases hp.symm.trans hp'
        cases hk.symm.trans hk'
    · rcases pending_origin hx hs hb hpb with ⟨b₀, hb₀, -, hpb₀⟩ |
        ⟨i', o', p', d', k', s', hl, hp', hk', -⟩ | ⟨i', o', p', b₀, k', hl, hp', hb₀, hk', -, rfl⟩
      · exact absurd hpb₀ (by rw [(orderly_promote hP hp hk ha₀ rfl).2 b₀ hb₀]; decide)
      · cases hl
        cases hp.symm.trans hp'
        cases hk.symm.trans hk'
      · cases hl
        cases hp.symm.trans hp'
        have hprog := Option.some.inj (hk.symm.trans hk')
        have hid : a₀.id = b₀.id := by
          injection hprog with hop
          injection hop
        rw [request_eq ha₀ hb₀ hid]
  cleared q hq t hclears r hr := by
    obtain ⟨j, hq⟩ := List.getElem?_of_mem hq
    by_contra hpending
    rw [Bool.not_eq_false] at hpending
    rcases clears_step hx hs hq hclears with ⟨p, hp, hclears, hno⟩ | ⟨o, p, τ, n, k, rfl, hp, hk, he⟩
    · rcases pending_origin hx hs hr hpending with ⟨r₀, hr₀, -, hpending₀⟩ |
        ⟨i, o, p', d, k, s, rfl, hp', hk, hclears', -⟩ | ⟨i, o, p', r₀, k, rfl, hp', hr₀, hk, rfl, -⟩
      · exact absurd hpending₀ (by rw [hI.cleared p (List.mem_of_getElem? hp) t hclears r₀ hr₀]; decide)
      · cases hI.alone hp hp' hclears hclears'
        exact hno o p' _ k rfl hp' hk d rfl
      · exact not_clears (orderly_promote hP hp' hk hr₀ rfl).1 (List.mem_of_getElem? hp) hclears
    · obtain ⟨r₀, hr₀, rfl⟩ := List.mem_map.mp (cancel_ok he ▸ Table.mem_def.mp hr)
      unfold supersede at hpending
      split at hpending
      · simp [isPendingOf] at hpending
      · contradiction
  alone {i j p q t} hp hq hcp hcq := by
    rcases clears_step hx hs hp hcp with ⟨p', hp', hcp', -⟩ | ⟨o, p', τ, n, k, rfl, hp', hk, -⟩
    · rcases clears_step hx hs hq hcq with ⟨q', hq', hcq', -⟩ | ⟨o, q', τ, n, k, rfl, hq', hk, -⟩
      · exact hI.alone hp' hq' hcp' hcq'
      · exact absurd hcp' (not_clears (orderly_cancel hP hq' hk).1 (List.mem_of_getElem? hp'))
    · rcases clears_step hx hs hq hcq with ⟨q', hq', hcq', -⟩ | ⟨o', q', τ', n', k', hl, -⟩
      · exact absurd hcq' (not_clears (orderly_cancel hP hp' hk).1 (List.mem_of_getElem? hq'))
      · cases hl
        rfl

/-! ## One merge -/

theorem promoted_step {e : Event Op.Ans Err} {h : Hist} {r : ChatLinkRequest}
    (hr : phase (e :: h) = .promoted r) :
    phase h = .promoted r ∨ ∃ id, e.op = .linkRequestUpdate id .promote := by
  rw [phase_cons] at hr
  generalize phase h = ph at hr ⊢
  revert hr
  fun_cases Phase.step ph e <;> intro hr
  case case10 r' id a => exact .inr ⟨id, rfl⟩
  all_goals first
    | exact .inl hr
    | cases hr

/-- Only a resolution promotes. -/
theorem promoted_resolves (hx : Reachable env x) : ∀ p ∈ x.procs, ∀ r,
    phase p.hist = .promoted r → ∃ input, p.call = .resolve input := by
  refine Reaches.histories (V := service env)
    (J := fun (c : Call) h => ∀ e ∈ h.head?, c.Does e.op)
    (T := fun (c : Call) h => ∀ r, phase h = .promoted r → ∃ input, c = .resolve input)
    ?_ ?_ ?_ hx
  · rintro x hx p hp op k hk a e ⟨⟩
    exact does_of_reaches hx hp hk
  · exact fun c r hr => by cases hr
  · intro c e h hdoes ih r hr
    rcases promoted_step hr with hr | ⟨id, hop⟩
    · exact ih r hr
    · have hpromotes := hdoes e rfl
      rw [hop] at hpromotes
      obtain ⟨input, hcall, -⟩ := hpromotes
      exact ⟨input, hcall⟩

/-- **A code leads to one merge.** In every orderly run: two calls that merged with one request are one,
and a call merges once. Whenever a merge is about to be made, its request is there, made for the target
and live: never consumed and not expired, or consumed before it expired and back from review. An account
has at most one live code. -/
theorem links_once (env : Env) {x : Config (service env)}
    (h : Follows (orderly env) ⟨World.initial, []⟩ x) :
    (∀ (i j : Nat) (p q : Process (service env)) (id : Uuid), x.procs[i]? = some p →
      x.procs[j]? = some q → MergedWith p.hist id → MergedWith q.hist id → i = j) ∧
    (∀ p ∈ x.procs, merges p.hist ≤ 1) ∧
    (∀ p ∈ x.procs, ∀ source target opts (k : Except Err MergeReport → Program Reply),
      p.prog = some (.call (.mergeAccounts source target opts) k) →
        ∃ r ∈ World.linkRequests x.world, requestOf p.hist = some r.id ∧ r.targetUserId = target ∧
          r.status = .pending ∧ (r.consumedAt = none ∧ World.clock x.world < r.expiresAt ∨
            (∃ input, p.call = .resolve input) ∧ ConsumedInTime r)) ∧
    ∀ a ∈ World.linkRequests x.world, ∀ b ∈ World.linkRequests x.world,
      a.targetUserId = b.targetUserId → a.status = .pending → b.status = .pending → a = b := by
  have hx := h.reaches
  have hsettled := h.invariant (I := Settled) settled_initial
    fun hu hI hP hl => settled_step hu hI hP (Config.next_step hl)
  have hminted := h.invariant (I := Minted) minted_initial
    fun hu hI hP hl => minted_step hu hI hP (Config.next_step hl)
  refine ⟨fun i j p q id hp hq hmp hmq => ?_, fun p hp => (tallied_of_reaches hx p hp).merges_le,
    fun p hp source target opts k hk => ?_, fun a ha b hb htarget hpa hpb => ?_⟩
  · obtain ⟨r, hr, hid⟩ := (tallied_of_reaches hx p (List.mem_of_getElem? hp)).used hmp
    obtain ⟨r', hr', hid'⟩ := (tallied_of_reaches hx q (List.mem_of_getElem? hq)).used hmq
    exact hsettled.once hp hq hr hr' (hid.trans hid'.symm)
  · have hrun := running_of hk
    have hsound := hsettled.sound p hp
    obtain ⟨r, htarget, ⟨hphase, -, -⟩ | ⟨hphase, -⟩⟩ := promises_of_reaches hx hp hk
    · obtain ⟨n, hrow⟩ := hsettled.has p hp hrun r (by rw [hphase]; rfl)
      rw [hphase] at hsound
      exact ⟨_, hrow, (tallied_of_reaches hx p hp).named r (by rw [hphase]; rfl), htarget, hsound.1,
        .inl ⟨hsound.2, hsettled.unexpired p hp hrun r hphase⟩⟩
    · obtain ⟨n, hrow⟩ := hsettled.has p hp hrun r (by rw [hphase]; rfl)
      rw [hphase] at hsound
      exact ⟨_, hrow, (tallied_of_reaches hx p hp).named r (by rw [hphase]; rfl), htarget, hsound.1,
        .inr ⟨promoted_resolves hx p hp r hphase, hsound.2⟩⟩
  · exact hminted.one ha hb (isPendingOf_iff.mpr ⟨rfl, hpa⟩) (isPendingOf_iff.mpr ⟨htarget.symm, hpb⟩)

namespace Demo

def otherBorn : Uuid := ⟨"00000000-0000-4000-8001-000000000004", by decide⟩

/-- Another new chat account goes on. -/
def follows (i n : Nat) : List (Label (service settings)) :=
  List.replicate n (.perform i (.served ⟨otherBorn, "CODE"⟩))

/-- A second chat types the code while the first is about to be merged. -/
def racing : List (Label (service settings)) :=
  connecting ++ .arrive (.message .telegram "43" none (some "CODE")) :: follows 2 11 ++
  goes 1 1 ++ follows 2 1

/-- Process `i` merged with this request. -/
def linkedBy (x : Config (service settings)) (i : Nat) (id : Uuid) : Bool :=
  x.procs[i]?.any fun p => decide (MergedWith p.hist id)

theorem linkedBy_iff {x : Config (service settings)} {i : Nat} {id : Uuid}
    (h : linkedBy x i id = true) : ∃ p, x.procs[i]? = some p ∧ MergedWith p.hist id := by
  obtain ⟨p, hp, hm⟩ := (Option.any_eq_true _ _).mp h
  exact ⟨p, hp, of_decide_eq_true hm⟩

end Demo

set_option maxRecDepth 20000 in
/-- **Two chats that type one code at the same time are both merged.** -/
theorem linked_twice : ¬ ∀ (env : Env) (x : Config (service env)), Reachable env x →
    ∀ (i j : Nat) (p q : Process (service env)) (id : Uuid), x.procs[i]? = some p →
      x.procs[j]? = some q → MergedWith p.hist id → MergedWith q.hist id → i = j := by
  intro hall
  have hrun : ((Config.run Guard.free Demo.racing ⟨World.initial, []⟩).map fun x =>
      Demo.linkedBy x 1 Demo.chatBorn && Demo.linkedBy x 2 Demo.chatBorn) = some true := by decide
  obtain ⟨x, hx, htest⟩ := exists_of_run hrun
  obtain ⟨hfirst, hsecond⟩ := Bool.and_eq_true_iff.mp htest
  obtain ⟨p, hp, hmp⟩ := Demo.linkedBy_iff hfirst
  obtain ⟨q, hq, hmq⟩ := Demo.linkedBy_iff hsecond
  exact absurd (hall _ x hx 1 2 p q _ hp hq hmp hmq) (by decide)

set_option maxRecDepth 20000 in
/-- One chat types the code. -/
theorem links_once_connecting : ∃ x : Config (service Demo.settings),
    (Follows (orderly Demo.settings) ⟨World.initial, []⟩ x ∧
      Demo.linkedBy x 1 Demo.chatBorn = true) ∧
    (∀ (i j : Nat) (p q : Process (service Demo.settings)) (id : Uuid), x.procs[i]? = some p →
      x.procs[j]? = some q → MergedWith p.hist id → MergedWith q.hist id → i = j) ∧
    ∀ p ∈ x.procs, merges p.hist ≤ 1 := by
  have hrun : ((Config.follow (orderly Demo.settings) (Demo.connecting ++ Demo.goes 1 3)
      ⟨World.initial, []⟩).map fun x => Demo.linkedBy x 1 Demo.chatBorn) = some true := by decide
  obtain ⟨x, hx, htest⟩ := exists_of_follow hrun
  have honce := links_once Demo.settings hx
  exact ⟨x, ⟨hx, htest⟩, honce.1, honce.2.1⟩

end Meduman.Linking
