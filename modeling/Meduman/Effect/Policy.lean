import Meduman.Effect.Pool

/-!
# Runs that follow a policy

A policy looks at the configuration a step is taken from and at the step: who is cut off, which
outcome an operation meets, which call arrives. Invariants of such runs may speak of the calls in
progress, not only of the world.

* `Policy`, `Follows` : runs all of whose steps pass
* `Follows.invariant` : the invariant rule
* `Passes`, `Passes.invariant` : such runs with the worlds they pass
* `Passes.performed`, `Passes.since` : what was done between these worlds, and what is kept since
* `Config.Step` : a step with the process it moves
* `Config.Performs`, `Config.performs_of_run` : which step of a run performed what
* `Reaches.along` : what every call in progress still promises, and what it leaves when it ends
* `Outline.restrict` : an outline holds where fewer calls arrive and the environment moves less
-/

set_option autoImplicit false

namespace Effect

variable {Op : Type} {Ans : Op → Type} {Err : Type} {V : Service Ans Err}

/-! ## Policies -/

/-- A condition on one step: from which configuration, which step. -/
abbrev Policy (V : Service Ans Err) := Config V → Label V → Bool

/-- Runs all of whose steps pass the policy. -/
def Follows (P : Policy V) : Config V → Config V → Prop :=
  Relation.ReflTransGen fun x y => ∃ l, P x l = true ∧ x.next Guard.free l = some y

variable {P Q : Policy V} {x y z : Config V}

theorem Follows.reaches (h : Follows P x y) : Reaches Guard.free x y :=
  Relation.ReflTransGen.mono (fun _ _ ⟨l, _, hl⟩ => ⟨l, hl⟩) _ _ h

theorem Follows.mono (h : Follows P x y) (hPQ : ∀ x l, P x l = true → Q x l = true) :
    Follows Q x y :=
  Relation.ReflTransGen.mono (fun _ _ ⟨l, hP, hl⟩ => ⟨l, hPQ _ _ hP, hl⟩) _ _ h

/-- **Invariant rule.** A step may use what is known of every reachable configuration. -/
theorem Follows.invariant {I : Config V → Prop} (h : Follows P x y) (hx : I x)
    (hstep : ∀ {u v l}, Reaches Guard.free x u → I u → P u l = true →
      u.next Guard.free l = some v → I v) : I y := by
  induction h with
  | refl => exact hx
  | tail hrun hl ih =>
      obtain ⟨l, hP, hl⟩ := hl
      exact hstep (Follows.reaches hrun) ih hP hl

/-- The configuration a list of steps leads to, every one of them passing the policy. -/
def Config.follow (P : Policy V) : List (Label V) → Config V → Option (Config V)
  | [], x => some x
  | l :: ls, x => if P x l then (x.next Guard.free l).bind (follow P ls) else none

theorem follows_of_follow {ls : List (Label V)} (h : x.follow P ls = some y) : Follows P x y := by
  induction ls generalizing x with
  | nil => cases h; exact .refl
  | cons l ls ih =>
      simp only [Config.follow] at h
      split at h
      · obtain ⟨z, hz, hy⟩ := Option.bind_eq_some_iff.mp h
        exact .head ⟨l, ‹_›, hz⟩ (ih hy)
      · cases h

/-- A list of steps reaches a configuration that passes a test. -/
theorem exists_of_run {G : Guard V} {ls : List (Label V)} {test : Config V → Bool}
    (h : (Config.run G ls x).map test = some true) : ∃ y, Reaches G x y ∧ test y = true := by
  obtain ⟨y, hy, htest⟩ := Option.map_eq_some_iff.mp h
  exact ⟨y, reaches_of_run hy, htest⟩

/-- Two lists of steps, one after the other, reach two configurations that pass a test. -/
theorem exists_of_runs {G : Guard V} {ls ls' : List (Label V)} {test : Config V → Config V → Bool}
    (h : ((Config.run G ls x).bind fun y => (Config.run G ls' y).map (test y)) = some true) :
    ∃ y z, Reaches G x y ∧ Reaches G y z ∧ test y z = true := by
  obtain ⟨y, hy, h⟩ := Option.bind_eq_some_iff.mp h
  obtain ⟨z, hz, htest⟩ := Option.map_eq_some_iff.mp h
  exact ⟨y, z, reaches_of_run hy, reaches_of_run hz, htest⟩

/-- A list of steps, every one of them passing the policy, reaches a configuration that passes a
test. -/
theorem exists_of_follow {ls : List (Label V)} {test : Config V → Bool}
    (h : (x.follow P ls).map test = some true) : ∃ y, Follows P x y ∧ test y = true := by
  obtain ⟨y, hy, htest⟩ := Option.map_eq_some_iff.mp h
  exact ⟨y, follows_of_follow hy, htest⟩

/-- Two lists of steps, one after the other, that pass the policy. -/
theorem exists_of_follows {ls ls' : List (Label V)} {test : Config V → Config V → Bool}
    (h : ((x.follow P ls).bind fun y => (y.follow P ls').map (test y)) = some true) :
    ∃ y z, Follows P x y ∧ Follows P y z ∧ test y z = true := by
  obtain ⟨y, hy, h⟩ := Option.bind_eq_some_iff.mp h
  obtain ⟨z, hz, htest⟩ := Option.map_eq_some_iff.mp h
  exact ⟨y, z, follows_of_follow hy, follows_of_follow hz, htest⟩

/-! ## Worlds passed -/

/-- Runs all of whose steps pass the policy, with the worlds they pass, the newest first. -/
inductive Passes (P : Policy V) (x : Config V) : Config V → List V.World → Prop
  | start : Passes P x x [x.world]
  | step {y z : Config V} {past : List V.World} {l : Label V} (run : Passes P x y past)
      (allowed : P y l = true) (next : y.next Guard.free l = some z) :
      Passes P x z (z.world :: past)

variable {past : List V.World}

theorem Passes.follows (h : Passes P x y past) : Follows P x y := by
  induction h with
  | start => exact .refl
  | step _ allowed next ih => exact ih.tail ⟨_, allowed, next⟩

/-- A run passes worlds. -/
theorem Reaches.passes (h : Reaches Guard.free x y) :
    ∃ past, Passes (fun _ _ => true) x y past := by
  induction h with
  | refl => exact ⟨_, .start⟩
  | tail _ hstep ih =>
      obtain ⟨past, hpast⟩ := ih
      obtain ⟨l, hl⟩ := hstep
      exact ⟨_, .step hpast rfl hl⟩

theorem Passes.world_mem (h : Passes P x y past) : y.world ∈ past := by
  cases h with
  | start => exact List.mem_cons_self
  | step => exact List.mem_cons_self

/-- **Invariant rule** for what the worlds passed say of the last configuration. -/
theorem Passes.invariant {I : List V.World → Config V → Prop} (h : Passes P x y past)
    (hx : I [x.world] x)
    (hstep : ∀ {past u v l}, Reaches Guard.free x u → u.world ∈ past → I past u → P u l = true →
      u.next Guard.free l = some v → I (v.world :: past) v) : I past y := by
  induction h with
  | start => exact hx
  | step run allowed next ih => exact hstep run.follows.reaches run.world_mem ih allowed next

/-- **What a process did,** it had done before the run, or it did between two worlds the run passed. -/
theorem Passes.performed (h : Passes P x y past) {i : Nat} {p : Process V} (hp : y.procs[i]? = some p)
    {e : Event Ans Err} (he : e ∈ p.hist) : (∃ q, x.procs[i]? = some q ∧ e ∈ q.hist) ∨
      ∃ u ∈ past, ∃ w ∈ past, ∃ choice, V.exec e.op choice u = some (e.ans, w) := by
  induction h generalizing p with
  | start => exact .inl ⟨p, hp, he⟩
  | step run allowed next ih =>
      rcases Config.next_performed next hp he with ⟨q, hq, hmem⟩ | ⟨choice, -, hexec⟩
      · refine (ih hq hmem).imp_right fun hdone => ?_
        obtain ⟨u, hu, w, hw, hexec⟩ := hdone
        exact ⟨u, List.mem_cons_of_mem _ hu, w, List.mem_cons_of_mem _ hw, hexec⟩
      · exact .inr ⟨_, List.mem_cons_of_mem _ run.world_mem, _, List.mem_cons_self, choice, hexec⟩

/-- **What every step keeps** has been kept since each of the worlds. -/
theorem Passes.since {R : V.World → V.World → Prop} (h : Passes P x y past) (refl : ∀ w, R w w)
    (trans : ∀ {u v w}, R u v → R v w → R u w)
    (step : ∀ {u v : Config V} {l : Label V}, Reaches Guard.free x u → u.next Guard.free l = some v →
      R u.world v.world) : ∀ u ∈ past, R u y.world := by
  induction h with
  | start =>
      intro u hu
      rw [List.mem_singleton.mp hu]
      exact refl _
  | step run allowed next ih =>
      intro u hu
      rcases List.mem_cons.mp hu with rfl | hu
      · exact refl _
      · exact trans (ih u hu) (step run.follows.reaches next)

/-- **What every step keeps** has been kept from the start to each of the worlds. -/
theorem Passes.after {R : V.World → V.World → Prop} (h : Passes P x y past) (refl : ∀ w, R w w)
    (trans : ∀ {u v w}, R u v → R v w → R u w)
    (step : ∀ {u v : Config V} {l : Label V}, u.next Guard.free l = some v → R u.world v.world) :
    ∀ u ∈ past, R x.world u := by
  induction h with
  | start =>
      intro u hu
      rw [List.mem_singleton.mp hu]
      exact refl _
  | step run allowed next ih =>
      intro u hu
      rcases List.mem_cons.mp hu with rfl | hu
      · exact trans (ih _ run.world_mem) (step next)
      · exact ih u hu

/-- The configuration a list of steps leads to, and the worlds it passes after these. -/
def Config.pass (P : Policy V) : List (Label V) → Config V → List V.World →
    Option (Config V × List V.World)
  | [], x, past => some (x, past)
  | l :: ls, x, past =>
      if P x l then (x.next Guard.free l).bind fun y => pass P ls y (y.world :: past) else none

theorem passes_of_pass {ls : List (Label V)} {r : Config V × List V.World}
    (h : Passes P z x past) (hr : x.pass P ls past = some r) : Passes P z r.1 r.2 := by
  induction ls generalizing x past with
  | nil => cases hr; exact h
  | cons l ls ih =>
      simp only [Config.pass] at hr
      split at hr
      · rename_i hP
        obtain ⟨y, hy, hr⟩ := Option.bind_eq_some_iff.mp hr
        exact ih (.step h hP hy) hr
      · cases hr

/-! ## Steps -/

section Set

variable {α : Type} {l : List α} {i : Nat} {a b c : α} {φ : α → Prop}

/-- Replacing one element keeps a witness, unless it was that element. -/
theorem exists_mem_set (ha : l[i]? = some a) (h : ∃ c ∈ l, φ c) :
    (∃ c ∈ l.set i b, φ c) ∨ φ a := by
  obtain ⟨c, hc, hφ⟩ := h
  obtain ⟨j, hj⟩ := List.getElem?_of_mem hc
  by_cases hij : i = j
  · subst hij
    cases ha.symm.trans hj
    exact .inr hφ
  · exact .inl ⟨c, List.mem_of_getElem? (by rw [List.getElem?_set_ne hij, hj]), hφ⟩

variable {χ ψ π : α → Bool}

theorem countP_le_add (h : ∀ a ∈ l, χ a = true → ψ a = true ∨ π a = true) :
    l.countP χ ≤ l.countP ψ + l.countP π := by
  induction l with
  | nil => exact Nat.le_refl _
  | cons a l ih =>
      have hrest := ih fun b hb => h b (List.mem_cons_of_mem _ hb)
      have hfirst := h a List.mem_cons_self
      simp only [List.countP_cons]
      split <;> split <;> split <;> simp_all <;> omega

theorem countP_lt (h : ∀ a ∈ l, χ a = true → ψ a = true) (ha : a ∈ l) (hψ : ψ a = true)
    (hχ : χ a = false) : l.countP χ < l.countP ψ := by
  obtain ⟨before, after, rfl⟩ := List.append_of_mem ha
  have hbefore := List.countP_mono_left (p := χ) (q := ψ) fun b hb =>
    h b (List.mem_append_left (a :: after) hb)
  have hafter := List.countP_mono_left (p := χ) (q := ψ) fun b hb =>
    h b (List.mem_append_right before (List.mem_cons_of_mem a hb))
  rw [List.countP_append, List.countP_append, List.countP_cons, List.countP_cons, if_pos hψ,
    if_neg (by simp [hχ])]
  omega

/-- Replacing one element counts at most one more, and only where the new one counts. -/
theorem countP_set_le (ha : l[i]? = some a) : (l.set i b).countP χ ≤ l.countP χ + (χ b).toNat := by
  obtain ⟨hi, -⟩ := List.getElem?_eq_some_iff.mp ha
  rw [List.countP_set hi]
  cases χ b <;> simp

/-- Replacing one element by one that does not count more. -/
theorem countP_set_of_le (ha : l[i]? = some a) (h : χ b = true → χ a = true) :
    (l.set i b).countP χ ≤ l.countP χ := by
  obtain ⟨hi, hget⟩ := List.getElem?_eq_some_iff.mp ha
  rw [List.countP_set hi, hget]
  cases hb : χ b with
  | false => simp
  | true =>
      have hpos : 0 < l.countP χ := List.countP_pos_iff.mpr ⟨a, List.mem_of_getElem? ha, h hb⟩
      simp only [h hb, if_true]
      omega

theorem mem_set_self (ha : l[i]? = some a) : b ∈ l.set i b :=
  List.mem_of_getElem? (List.getElem?_set_self (List.getElem?_eq_some_iff.mp ha).1)

/-- An element after a replacement is the new one, or was there at the same place. -/
theorem getElem?_set_cases {j : Nat} (ha : l[i]? = some a) (h : (l.set i b)[j]? = some c) :
    (j = i ∧ c = b) ∨ (j ≠ i ∧ l[j]? = some c) := by
  by_cases hij : i = j
  · subst hij
    rw [List.getElem?_set_self (List.getElem?_eq_some_iff.mp ha).1, Option.some.injEq] at h
    exact .inl ⟨rfl, h.symm⟩
  · rw [List.getElem?_set_ne hij] at h
    exact .inr ⟨fun hji => hij hji.symm, h⟩

end Set

/-- A step, with the process it starts, moves or cuts off. -/
inductive Config.Step (x y : Config V) : Label V → Prop
  | arrive {c : V.Call} (admitted : V.admits c x.world = true) (world : y.world = x.world)
      (procs : y.procs = x.procs ++ [⟨c, [], some (V.code c)⟩]) : Step x y (.arrive c)
  | perform {i : Nat} {choice : V.Choice} {p : Process V} {op : Op}
      {k : Except Err (Ans op) → Prog Ans Err V.Reply} {a : Except Err (Ans op)}
      (at' : x.procs[i]? = some p) (next : p.prog = some (.call op k))
      (exec : V.exec op choice x.world = some (a, y.world))
      (procs : y.procs = x.procs.set i ⟨p.call, ⟨op, a⟩ :: p.hist, some (k a)⟩) :
      Step x y (.perform i choice)
  | crash {i : Nat} {p : Process V} (at' : x.procs[i]? = some p) (world : y.world = x.world)
      (procs : y.procs = x.procs.set i { p with prog := none }) : Step x y (.crash i)
  | drift {m : V.Move} (moves : V.drift m x.world = some y.world) (procs : y.procs = x.procs) :
      Step x y (.drift m)

theorem Config.next_step {G : Guard V} {l : Label V} (h : x.next G l = some y) : x.Step y l := by
  cases l with
  | arrive c =>
      simp only [next] at h
      split at h
      · cases h; exact .arrive ‹_› rfl rfl
      · cases h
  | perform i choice =>
      simp only [next] at h
      split at h
      · rename_i p op k hpend
        obtain ⟨hp, hprog⟩ := pending_spec hpend
        split at h
        · obtain ⟨r, hr, hy⟩ := Option.map_eq_some_iff.mp h
          cases hy
          exact .perform hp hprog hr rfl
        · cases h
      · cases h
  | crash i =>
      obtain ⟨p, hp, hy⟩ := Option.map_eq_some_iff.mp h
      cases hy
      exact .crash hp rfl rfl
  | drift m =>
      obtain ⟨w, hw, hy⟩ := Option.map_eq_some_iff.mp h
      cases hy
      exact .drift hw rfl

/-- What a process did by the end of a step: what it did before, or one operation more. -/
theorem Config.Step.hist_cases {l : Label V} (hs : x.Step y l) {j : Nat} {q : Process V}
    (hq : y.procs[j]? = some q) :
    (∃ p, x.procs[j]? = some p ∧ q.call = p.call ∧ q.hist = p.hist) ∨ q.hist = [] ∨
    ∃ p op k choice a, x.procs[j]? = some p ∧ p.prog = some (.call op k) ∧
      l = .perform j choice ∧ V.exec op choice x.world = some (a, y.world) ∧ q.call = p.call ∧
      q.hist = ⟨op, a⟩ :: p.hist := by
  cases hs with
  | arrive hadm hw hprocs =>
      rw [hprocs, List.getElem?_append] at hq
      split at hq
      · exact .inl ⟨q, hq, rfl, rfl⟩
      · rw [List.mem_singleton.mp (List.mem_of_getElem? hq)]
        exact .inr (.inl rfl)
  | @perform i choice p op k a hp hk he hprocs =>
      rw [hprocs] at hq
      rcases getElem?_set_cases hp hq with ⟨rfl, rfl⟩ | ⟨-, hq⟩
      · exact .inr (.inr ⟨p, op, k, choice, a, hp, hk, rfl, he, rfl, rfl⟩)
      · exact .inl ⟨q, hq, rfl, rfl⟩
  | @crash i p hp hw hprocs =>
      rw [hprocs] at hq
      rcases getElem?_set_cases hp hq with ⟨rfl, rfl⟩ | ⟨-, hq⟩
      · exact .inl ⟨p, hp, rfl, rfl⟩
      · exact .inl ⟨q, hq, rfl, rfl⟩
  | drift hm hprocs =>
      rw [hprocs] at hq
      exact .inl ⟨q, hq, rfl, rfl⟩

/-- A process in progress is as it was before the step, or has just arrived, or has just performed an
operation. -/
theorem Config.Step.live_cases {l : Label V} (hs : x.Step y l) {j : Nat} {q : Process V}
    (hq : y.procs[j]? = some q) (hlive : q.prog ≠ none) :
    x.procs[j]? = some q ∨ (∃ c, q = ⟨c, [], some (V.code c)⟩) ∨
    ∃ p op k choice a, x.procs[j]? = some p ∧ p.prog = some (.call op k) ∧
      l = .perform j choice ∧ V.exec op choice x.world = some (a, y.world) ∧
      q = ⟨p.call, ⟨op, a⟩ :: p.hist, some (k a)⟩ := by
  cases hs with
  | @arrive c hadm hw hprocs =>
      rw [hprocs, List.getElem?_append] at hq
      split at hq
      · exact .inl hq
      · exact .inr (.inl ⟨c, List.mem_singleton.mp (List.mem_of_getElem? hq)⟩)
  | @perform i choice p op k a hp hk he hprocs =>
      rw [hprocs] at hq
      rcases getElem?_set_cases hp hq with ⟨rfl, rfl⟩ | ⟨-, hq⟩
      · exact .inr (.inr ⟨p, op, k, choice, a, hp, hk, rfl, he, rfl⟩)
      · exact .inl hq
  | @crash i p hp hw hprocs =>
      rw [hprocs] at hq
      rcases getElem?_set_cases hp hq with ⟨rfl, rfl⟩ | ⟨-, hq⟩
      · exact absurd rfl hlive
      · exact .inl hq
  | drift hm hprocs => exact .inl (hprocs ▸ hq)

/-- A call is one of before, or has just been admitted. -/
theorem Config.Step.call_cases {l : Label V} (hs : x.Step y l) {q : Process V} (hq : q ∈ y.procs) :
    (∃ p ∈ x.procs, q.call = p.call) ∨ V.admits q.call x.world = true := by
  cases hs with
  | arrive hadm hw hprocs =>
      rw [hprocs] at hq
      rcases List.mem_append.mp hq with hq | hq
      · exact .inl ⟨q, hq, rfl⟩
      · rw [List.mem_singleton.mp hq]
        exact .inr hadm
  | perform hp hk he hprocs =>
      rw [hprocs] at hq
      rcases List.mem_or_eq_of_mem_set hq with hq | rfl
      · exact .inl ⟨q, hq, rfl⟩
      · exact .inl ⟨_, List.mem_of_getElem? hp, rfl⟩
  | crash hp hw hprocs =>
      rw [hprocs] at hq
      rcases List.mem_or_eq_of_mem_set hq with hq | rfl
      · exact .inl ⟨q, hq, rfl⟩
      · exact .inl ⟨_, List.mem_of_getElem? hp, rfl⟩
  | drift hm hprocs => exact .inl ⟨q, hprocs ▸ hq, rfl⟩

/-- A step leaves the world alone, or performs an operation, or lets the world drift. -/
theorem Config.Step.world_cases {l : Label V} (hs : x.Step y l) :
    y.world = x.world ∨ (∃ i choice p op k a, l = .perform i choice ∧ x.procs[i]? = some p ∧
      p.prog = some (.call op k) ∧ V.exec op choice x.world = some (a, y.world) ∧
      y.procs[i]? = some ⟨p.call, ⟨op, a⟩ :: p.hist, some (k a)⟩) ∨
    ∃ m, l = .drift m ∧ V.drift m x.world = some y.world := by
  cases hs with
  | arrive _ hw _ => exact .inl hw
  | @perform i choice p op k a hp hk he hprocs =>
      refine .inr (.inl ⟨i, choice, p, op, k, a, rfl, hp, hk, he, ?_⟩)
      rw [hprocs, List.getElem?_set_self (List.getElem?_eq_some_iff.mp hp).1]
  | crash _ hw _ => exact .inl hw
  | @drift m hm _ => exact .inr (.inr ⟨m, rfl, hm⟩)

/-- What some process did, some process did also after a step. -/
theorem Config.Step.exists_hist {l : Label V} (hs : x.Step y l)
    {φ : V.Call → History Ans Err → Prop} (mono : ∀ c e h, φ c h → φ c (e :: h))
    (h : ∃ p ∈ x.procs, φ p.call p.hist) : ∃ p ∈ y.procs, φ p.call p.hist := by
  cases hs with
  | arrive hadm hw hprocs =>
      obtain ⟨p, hp, hφ⟩ := h
      exact ⟨p, by rw [hprocs]; exact List.mem_append_left _ hp, hφ⟩
  | perform hp hk he hprocs =>
      rw [hprocs]
      exact (exists_mem_set hp h).elim id fun hφ => ⟨_, mem_set_self hp, mono _ _ _ hφ⟩
  | crash hp hw hprocs =>
      rw [hprocs]
      exact (exists_mem_set hp h).elim id fun hφ => ⟨_, mem_set_self hp, hφ⟩
  | drift hm hprocs => rw [hprocs]; exact h

/-- How many processes have a history with this property. -/
abbrev Config.countHist (φ : V.Call → History Ans Err → Bool) (x : Config V) : Nat :=
  x.procs.countP fun p => φ p.call p.hist

/-- The count changes with the history of the process that moves. -/
theorem Config.Step.countHist_perform {φ : V.Call → History Ans Err → Bool} {i : Nat}
    {choice : V.Choice} (hs : x.Step y (.perform i choice)) {p : Process V} {op : Op}
    {k : Except Err (Ans op) → Prog Ans Err V.Reply} {a : Except Err (Ans op)} {w : V.World}
    (hp : x.procs[i]? = some p) (hk : p.prog = some (.call op k))
    (he : V.exec op choice x.world = some (a, w)) :
    y.countHist φ + (φ p.call p.hist).toNat =
      x.countHist φ + (φ p.call (⟨op, a⟩ :: p.hist)).toNat := by
  cases hs with
  | @perform _ _ p' op' k' a' hp' hk' he' hprocs =>
      cases hp.symm.trans hp'
      cases hk.symm.trans hk'
      cases (Prod.mk.inj (Option.some.inj (he.symm.trans he'))).1
      obtain ⟨hi, hget⟩ := List.getElem?_eq_some_iff.mp hp
      have hpos (hold : φ p.call p.hist = true) : 0 < x.countHist φ :=
        List.countP_pos_iff.mpr ⟨p, List.mem_of_getElem? hp, hold⟩
      rw [countHist, hprocs, List.countP_set hi, hget]
      dsimp only
      cases hold : φ p.call p.hist with
      | false => cases φ p.call (⟨op, a⟩ :: p.hist) <;> rfl
      | true =>
          have := hpos hold
          rw [countHist] at this ⊢
          cases φ p.call (⟨op, a⟩ :: p.hist) <;> simp <;> omega

/-- Without an operation the count stays. -/
theorem Config.Step.countHist_eq {φ : V.Call → History Ans Err → Bool} (nil : ∀ c, φ c [] = false)
    {l : Label V} (hs : x.Step y l) (hl : ∀ i choice, l ≠ .perform i choice) :
    y.countHist φ = x.countHist φ := by
  cases hs with
  | arrive _ _ hprocs => simp [countHist, hprocs, nil]
  | perform => exact absurd rfl (hl _ _)
  | @crash i p hp _ hprocs =>
      obtain ⟨hi, hget⟩ := List.getElem?_eq_some_iff.mp hp
      rw [countHist, hprocs, List.countP_set hi, hget]
      dsimp only
      cases hold : φ p.call p.hist with
      | false => rfl
      | true =>
          have hpos : 0 < x.countHist φ :=
            List.countP_pos_iff.mpr ⟨p, List.mem_of_getElem? hp, hold⟩
          rw [countHist] at hpos ⊢
          simp
          omega
  | drift _ hprocs => rw [countHist, hprocs]

/-- What only grows with the history is counted more and more. -/
theorem Config.Step.countHist_mono {φ : V.Call → History Ans Err → Bool} (nil : ∀ c, φ c [] = false)
    (cons : ∀ c e h, φ c h = true → φ c (e :: h) = true) {l : Label V} (hs : x.Step y l) :
    x.countHist φ ≤ y.countHist φ := by
  cases l with
  | perform i choice =>
      cases hs with
      | @perform _ _ p op k a hp hk he hprocs =>
          have hcount := (Config.Step.perform hp hk he hprocs).countHist_perform (φ := φ) hp hk he
          have hgrows := cons p.call ⟨op, a⟩ p.hist
          cases hold : φ p.call p.hist with
          | false =>
              rw [hold, Bool.toNat_false, Nat.add_zero] at hcount
              exact hcount ▸ Nat.le_add_right _ _
          | true =>
              rw [hold, hgrows hold] at hcount
              exact Nat.le_of_eq (Nat.add_right_cancel hcount).symm
  | _ => exact Nat.le_of_eq (hs.countHist_eq nil fun _ _ h => by cases h).symm

/-- The pending operation of a process that has one. -/
theorem Config.pending_eq {i : Nat} {p : Process V} {op : Op}
    {k : Except Err (Ans op) → Prog Ans Err V.Reply} (hp : x.procs[i]? = some p)
    (hprog : p.prog = some (.call op k)) : x.pending i = some (p, ⟨op, k⟩) := by
  obtain ⟨c, h, prog⟩ := p
  cases hprog
  simp only [pending, hp]

/-- The process has operations left. -/
def Process.running (p : Process V) : Bool :=
  match p.prog with
  | some (.call _ _) => true
  | _ => false

/-! ## Runs by their steps -/

section Runs

variable {G : Guard V} {ls : List (Label V)} {i : Nat} {e : Event Ans Err} {u w : V.World}

theorem Config.run_append (ls ls' : List (Label V)) (x : Config V) :
    x.run G (ls ++ ls') = (x.run G ls).bind (Config.run G ls') := by
  induction ls generalizing x with
  | nil => rfl
  | cons l ls ih =>
      simp only [List.cons_append, Config.run, Option.bind_assoc]
      exact congrArg _ (funext ih)

/-- The steps of a run. -/
theorem Reaches.labels (h : Reaches G x y) : ∃ ls, x.run G ls = some y := by
  induction h with
  | refl => exact ⟨[], rfl⟩
  | tail _ hstep ih =>
      obtain ⟨ls, hls⟩ := ih
      obtain ⟨l, hl⟩ := hstep
      exact ⟨ls ++ [l], by simp [Config.run_append, hls, Config.run, hl]⟩

/-- In the run by these steps, process `i` performed this between these worlds. -/
def Config.Performs (x : Config V) (ls : List (Label V)) (i : Nat) (e : Event Ans Err) (u w : V.World) :
    Prop :=
  ∃ before choice after y p k, ls = before ++ .perform i choice :: after ∧
    x.run Guard.free before = some y ∧ y.pending i = some (p, ⟨e.op, k⟩) ∧ y.world = u ∧
    V.exec e.op choice u = some (e.ans, w)

theorem Config.Performs.cons {l : Label V} (hl : x.next Guard.free l = some y) (h : y.Performs ls i e u w) :
    x.Performs (l :: ls) i e u w := by
  obtain ⟨before, choice, after, z, p, k, rfl, hz, hrest⟩ := h
  exact ⟨l :: before, choice, after, z, p, k, rfl, by rw [Config.run, hl]; exact hz, hrest⟩

/-- **What a process did** by the end of a run, it had done before, or it did in one of its steps. -/
theorem Config.performs_of_run (h : x.run Guard.free ls = some y) {p : Process V}
    (hp : y.procs[i]? = some p) (he : e ∈ p.hist) :
    (∃ q, x.procs[i]? = some q ∧ e ∈ q.hist) ∨ ∃ u w, x.Performs ls i e u w := by
  induction ls generalizing x with
  | nil =>
      cases h
      exact .inl ⟨p, hp, he⟩
  | cons l ls ih =>
      obtain ⟨z, hl, hrest⟩ := Option.bind_eq_some_iff.mp h
      rcases ih hrest with ⟨q, hq, hmem⟩ | ⟨u, w, hdone⟩
      · -- this step, or before it
        rcases Config.next_performed hl hq hmem with hbefore | ⟨choice, rfl, -⟩
        · exact .inl hbefore
        · obtain ⟨q', op, k, hq', hprog⟩ := Config.pending_of_perform hl
          obtain ⟨a, -, hexec, hnew⟩ := Config.next_perform hq' hprog hl
          cases hq.symm.trans hnew
          rcases List.mem_cons.mp hmem with rfl | hmem
          · exact .inr ⟨x.world, z.world, [], choice, ls, x, q', k, rfl, rfl,
              Config.pending_eq hq' hprog, rfl, hexec⟩
          · exact .inl ⟨q', hq', hmem⟩
      · exact .inr ⟨u, w, hdone.cons hl⟩

/-- The worlds around what was performed are worlds of the run. -/
theorem Config.Performs.reaches (h : x.Performs ls i e u w) (hx : x.run Guard.free ls = some y) :
    ∃ z z', Reaches Guard.free x z ∧ z.world = u ∧ z'.world = w ∧ Reaches Guard.free z z' ∧
      Reaches Guard.free z' y := by
  obtain ⟨before, choice, after, z, p, k, rfl, hz, hpend, rfl, hexec⟩ := h
  rw [Config.run_append, hz] at hx
  obtain ⟨z', hl, hrest⟩ := Option.bind_eq_some_iff.mp (show z.run Guard.free _ = some y from hx)
  obtain ⟨hp, hprog⟩ := Config.pending_spec hpend
  obtain ⟨a, -, hexec', -⟩ := Config.next_perform hp hprog hl
  cases hexec.symm.trans hexec'
  exact ⟨z, z', reaches_of_run hz, rfl, rfl, .single ⟨_, hl⟩, reaches_of_run hrest⟩

end Runs

/-! ## What a process saw last -/

section Watch

variable (watch : V.Call → Op → Bool) (G : Guard V) (i : Nat)

/-- The step performs an operation of process `i` that is watched. -/
def Config.watches (x : Config V) : Label V → Bool
  | .perform j _ => j == i && match x.pending i with
      | some (p, ⟨op, _⟩) => watch p.call op
      | none => false
  | _ => false

/-- The world in which process `i` last performed a watched operation. -/
def Config.lastSeen : List (Label V) → Config V → Option V.World → Option V.World
  | [], _, m => m
  | l :: ls, x, m =>
      match x.next G l with
      | none => m
      | some y => lastSeen ls y (if x.watches watch i l then some x.world else m)

/-- The last watched operation of process `i` was performed in the world `m`. -/
def Config.Recalls (x : Config V) (m : Option V.World) : Prop :=
  ∀ p, x.procs[i]? = some p → ∀ e, p.hist.find? (fun e => watch p.call e.op) = some e →
    ∃ u, m = some u ∧ ∃ choice w h, V.exec e.op choice u = some (e.ans, w) ∧
      G p.call h u e.op = true

variable {watch G i}

theorem Config.Recalls.step {m : Option V.World} {l : Label V} (hx : x.Recalls watch G i m)
    (hl : x.next G l = some y) :
    y.Recalls watch G i (if x.watches watch i l then some x.world else m) := by
  intro q hq e he
  cases l with
  | perform j choice =>
      obtain ⟨p, op, k, hp, hk⟩ := pending_of_perform hl
      obtain ⟨a, hG, hexec, hj⟩ := next_perform hp hk hl
      by_cases hij : j = i
      · subst hij
        cases hq.symm.trans hj
        rw [watches, pending_eq hp hk]
        simp only [beq_self_eq_true, Bool.true_and]
        rw [List.find?_cons] at he
        cases hw : watch p.call op with
        | true =>
            simp only [hw, Option.some.injEq] at he
            subst he
            exact ⟨x.world, by simp, choice, y.world, p.hist, hexec, hG⟩
        | false =>
            simp only [hw] at he
            simpa using hx p hp e he
      · have hsame : x.procs[i]? = some q := by
          cases next_step hl with
          | perform hp' hk' he' hprocs => rwa [hprocs, List.getElem?_set_ne hij] at hq
        have hno : x.watches watch i (.perform j choice) = false := by simp [watches, hij]
        simpa [hno] using hx q hsame e he
  | arrive c =>
      cases next_step hl with
      | arrive hadm hw hprocs =>
          rw [hprocs, List.getElem?_append] at hq
          split at hq
          · simpa [watches] using hx q hq e he
          · rw [List.mem_singleton.mp (List.mem_of_getElem? hq)] at he
            cases he
  | crash j =>
      cases next_step hl with
      | crash hp hw hprocs =>
          rw [hprocs] at hq
          rcases getElem?_set_cases hp hq with ⟨rfl, rfl⟩ | ⟨-, hq⟩
          · simpa [watches] using hx _ hp e he
          · simpa [watches] using hx q hq e he
  | drift m' =>
      cases next_step hl with
      | drift hm hprocs =>
          rw [hprocs] at hq
          simpa [watches] using hx q hq e he

/-- **What a process saw last.** The last watched operation in its history was performed in the world
the run recalls. -/
theorem Config.Recalls.run {ls : List (Label V)} {m : Option V.World} (hx : x.Recalls watch G i m)
    (h : x.run G ls = some y) : y.Recalls watch G i (x.lastSeen watch G i ls m) := by
  induction ls generalizing x m with
  | nil => cases h; exact hx
  | cons l ls ih =>
      obtain ⟨z, hz, hy⟩ := Option.bind_eq_some_iff.mp h
      rw [lastSeen, hz]
      exact ih (hx.step hz) hy

end Watch

/-! ## What a call still promises -/

/-- **Every call in progress keeps its promise,** and what it leaves when it ends. -/
theorem Reaches.along {G : Guard V} {P : Event Ans Err → Prop}
    {J : V.Call → History Ans Err → Op → Prop}
    {R : V.Call → Except Err V.Reply → History Ans Err → Prop}
    (answer : ∀ {op choice u a w}, V.exec op choice u = some (a, w) → P ⟨op, a⟩)
    (code : ∀ {c w}, V.admits c w = true → (V.code c).Along P (J c) (R c) [])
    {w : V.World} (h : Reaches G ⟨w, []⟩ y) : ∀ p ∈ y.procs, ∀ q, p.prog = some q →
      q.Along P (J p.call) (R p.call) p.hist := by
  induction h with
  | refl => exact fun p hp => absurd hp List.not_mem_nil
  | tail _ hstep ih =>
      obtain ⟨l, hl⟩ := hstep
      intro p hp q hq
      rcases Config.next_cases hl with ⟨c, hc, -, hy⟩ | ⟨r, hr, op, k, choice, a, hk, -, he, hy⟩ |
        ⟨r, hr, -, hy⟩ | ⟨m, -, hy⟩
      · rcases hy p hp with hp | rfl
        · exact ih p hp q hq
        · cases hq; exact code hc
      · rcases hy p hp with hp | rfl
        · exact ih p hp q hq
        · cases hq; exact (ih r hr _ hk).2 a (answer he)
      · rcases hy p hp with hp | rfl
        · exact ih p hp q hq
        · cases hq
      · exact ih p (hy ▸ hp) q hq

/-- Every call in progress keeps to what its program uses. -/
theorem Reaches.uses {G : Guard V} {A : V.Call → Op → Prop} (code : ∀ c, (V.code c).Uses (A c))
    {w : V.World} (h : Reaches G ⟨w, []⟩ y) : ∀ p ∈ y.procs, ∀ q, p.prog = some q →
      q.Uses (A p.call) := by
  induction h with
  | refl => exact fun p hp => absurd hp List.not_mem_nil
  | tail _ hstep ih =>
      obtain ⟨l, hl⟩ := hstep
      intro p hp q hq
      rcases Config.next_cases hl with ⟨c, hc, -, hy⟩ | ⟨r, hr, op, k, choice, a, hk, -, he, hy⟩ |
        ⟨r, hr, -, hy⟩ | ⟨m, -, hy⟩
      · rcases hy p hp with hp | rfl
        · exact ih p hp q hq
        · cases hq; exact code c
      · rcases hy p hp with hp | rfl
        · exact ih p hp q hq
        · cases hq; exact (ih r hr _ hk).2 a
      · rcases hy p hp with hp | rfl
        · exact ih p hp q hq
        · cases hq
      · exact ih p (hy ▸ hp) q hq

/-- **What every promised operation keeps** of a history holds of the history of every call. -/
theorem Reaches.histories {G : Guard V} {J T : V.Call → History Ans Err → Prop}
    {w : V.World} (promise : ∀ {x : Config V}, Reaches G ⟨w, []⟩ x → ∀ p ∈ x.procs, ∀ op k,
      p.prog = some (.call op k) → ∀ a, J p.call (⟨op, a⟩ :: p.hist))
    (nil : ∀ c, T c []) (cons : ∀ c e h, J c (e :: h) → T c h → T c (e :: h))
    (h : Reaches G ⟨w, []⟩ y) : ∀ p ∈ y.procs, T p.call p.hist := by
  induction h with
  | refl => exact fun p hp => absurd hp List.not_mem_nil
  | tail hrun hstep ih =>
      obtain ⟨l, hl⟩ := hstep
      intro q hq
      obtain ⟨j, hj⟩ := List.getElem?_of_mem hq
      rcases (Config.next_step hl).hist_cases hj with ⟨p, hp, hcall, hhist⟩ | hnil |
        ⟨p, op, k, choice, a, hp, hk, -, -, hcall, hhist⟩
      · rw [hcall, hhist]
        exact ih p (List.mem_of_getElem? hp)
      · rw [hnil]
        exact nil _
      · have hmem := List.mem_of_getElem? hp
        rw [hcall, hhist]
        exact cons _ _ _ (promise hrun p hmem op k hk a) (ih p hmem)

/-- **What a call performed** was justified when it performed it. -/
theorem Reaches.justified {G : Guard V} {P : Event Ans Err → Prop}
    {J : V.Call → History Ans Err → Op → Prop}
    {R : V.Call → Except Err V.Reply → History Ans Err → Prop}
    (answer : ∀ {op choice u a w}, V.exec op choice u = some (a, w) → P ⟨op, a⟩)
    (code : ∀ {c w}, V.admits c w = true → (V.code c).Along P (J c) (R c) [])
    {w : V.World} (h : Reaches G ⟨w, []⟩ y) : ∀ p ∈ y.procs, ∀ e l, (e :: l) <:+ p.hist →
      J p.call l e.op := by
  refine h.histories (J := fun c h => ∀ e l, h = e :: l → J c l e.op)
    (T := fun c h => ∀ e l, (e :: l) <:+ h → J c l e.op) ?_ ?_ ?_
  · intro x hx p hp op k hk a e l heq
    cases heq
    exact (hx.along answer code p hp _ hk).1
  · exact fun _ _ _ hs => absurd (List.suffix_nil.mp hs) (List.cons_ne_nil _ _)
  · intro c e h hlast hbefore e' l hs
    rcases List.suffix_cons_iff.mp hs with heq | hs
    · exact hlast e' l heq.symm
    · exact hbefore e' l hs

/-- Every program promises nothing and leaves anything. -/
theorem along_any {α : Type} {possible : Event Ans Err → Prop} (p : Prog Ans Err α)
    (h : History Ans Err) : p.Along possible (fun _ _ => True) (fun _ _ => True) h := by
  induction p generalizing h with
  | done r => trivial
  | call op k ih => exact ⟨trivial, fun a _ => ih a _⟩

/-! ## Fewer calls and moves -/

/-- The service with other arrivals and moves. -/
abbrev Service.within (V : Service Ans Err) (admits : V.Call → V.World → Bool)
    (drift : V.Move → V.World → Option V.World) : Service Ans Err :=
  { V with admits := admits, drift := drift }

/-- A step of the one service as a step of the other. -/
def Label.within {admits : V.Call → V.World → Bool} {drift : V.Move → V.World → Option V.World} :
    Label V → Label (V.within admits drift)
  | .arrive c => .arrive c
  | .perform i choice => .perform i choice
  | .crash i => .crash i
  | .drift m => .drift m

/-- An outline holds where fewer calls arrive and each move is one the environment had before. -/
def Outline.restrict (O : Outline V Guard.free) {admits : V.Call → V.World → Bool}
    {drift : V.Move → V.World → Option V.World}
    (hadmits : ∀ {c w}, admits c w = true → V.admits c w = true)
    (hdrift : ∀ {m u w}, drift m u = some w → ∃ m', V.drift m' u = some w) :
    Outline (V.within admits drift) Guard.free where
  inv := O.inv
  rel := O.rel
  know := O.know
  possible := O.possible
  just := O.just
  rel_refl := O.rel_refl
  rel_trans := O.rel_trans
  know_nil hinv hc := O.know_nil hinv (hadmits hc)
  know_rel := O.know_rel
  drift hinv hm := by
    obtain ⟨m', hm'⟩ := hdrift hm
    exact O.drift hinv hm'
  exec := O.exec
  answer := O.answer
  code hc := O.code (hadmits hc)

end Effect
