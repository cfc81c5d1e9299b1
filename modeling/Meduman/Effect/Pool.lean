import Mathlib.Logic.Relation
import Meduman.Effect.Prog

/-!
# Concurrent calls over one world

A service answers calls; each call runs its program one operation at a time, between the operations
of every other call, and may be cut off anywhere. The environment picks the outcome of each
operation and moves the world on its own between them.

* `Service` : the world, its operations, its calls and their programs
* `Config`, `Config.next` : the running calls and one labelled step
* `Reaches` : runs all of whose operations pass a guard
* `Reaches.performed`, `Reaches.became` : the step of a run in which something came about
* `Outline` : what one operation must preserve for a whole run to preserve it
* `Layer` : a further outline over a proved one
-/

set_option autoImplicit false

namespace Effect

/-- A world shared by concurrent calls. `exec` has no result when the chosen outcome cannot happen;
`drift` is a move of the environment; `admits` tells which calls can arrive. -/
structure Service {Op : Type} (Ans : Op → Type) (Err : Type) where
  World : Type
  Choice : Type
  Move : Type
  Call : Type
  Reply : Type
  exec : (op : Op) → Choice → World → Option (Except Err (Ans op) × World)
  drift : Move → World → Option World
  admits : Call → World → Bool
  code : Call → Prog Ans Err Reply

variable {Op : Type} {Ans : Op → Type} {Err : Type} {V : Service Ans Err}

/-- A call in progress: what it did so far and what is left of it, nothing once it was cut off. -/
structure Process (V : Service Ans Err) where
  call : V.Call
  hist : History Ans Err
  prog : Option (Prog Ans Err V.Reply)

/-- The world and every call that ever arrived. -/
structure Config (V : Service Ans Err) where
  world : V.World
  procs : List (Process V)

/-- The steps of a run. -/
inductive Label (V : Service Ans Err) where
  | arrive (c : V.Call)
  | perform (i : Nat) (choice : V.Choice)
  | crash (i : Nat)
  | drift (m : V.Move)

/-- A condition on one operation: who performs it, after which history, in which world. -/
abbrev Guard (V : Service Ans Err) := V.Call → History Ans Err → V.World → Op → Bool

/-- The guard every operation passes. -/
def Guard.free : Guard V := fun _ _ _ _ => true

namespace Config

/-- The next operation of process `i`, with its continuation. -/
def pending (x : Config V) (i : Nat) :
    Option (Process V × Σ op : Op, Except Err (Ans op) → Prog Ans Err V.Reply) :=
  match x.procs[i]? with
  | some ⟨c, h, some (.call op k)⟩ => some (⟨c, h, some (.call op k)⟩, ⟨op, k⟩)
  | _ => none

/-- One step; operations must pass the guard. -/
def next (G : Guard V) (x : Config V) : Label V → Option (Config V)
  | .arrive c =>
      if V.admits c x.world then some { x with procs := x.procs ++ [⟨c, [], some (V.code c)⟩] }
      else none
  | .perform i choice =>
      match x.pending i with
      | some (p, ⟨op, k⟩) =>
          if G p.call p.hist x.world op then
            (V.exec op choice x.world).map fun r =>
              ⟨r.2, x.procs.set i ⟨p.call, ⟨op, r.1⟩ :: p.hist, some (k r.1)⟩⟩
          else none
      | none => none
  | .crash i =>
      x.procs[i]?.map fun p => { x with procs := x.procs.set i { p with prog := none } }
  | .drift m => (V.drift m x.world).map fun w => { x with world := w }

/-- The configuration a list of labels leads to. -/
def run (G : Guard V) : List (Label V) → Config V → Option (Config V)
  | [], x => some x
  | l :: ls, x => (x.next G l).bind (run G ls)

theorem pending_spec {x : Config V} {i : Nat} {p : Process V} {op : Op}
    {k : Except Err (Ans op) → Prog Ans Err V.Reply} (h : x.pending i = some (p, ⟨op, k⟩)) :
    x.procs[i]? = some p ∧ p.prog = some (.call op k) := by
  unfold pending at h
  split at h
  · rename_i c hist op' k' hp
    cases h
    exact ⟨hp, rfl⟩
  · cases h

/-- **Step inversion.** A step starts an admitted call, performs the next operation of one
process, cuts one off or lets the world drift. -/
theorem next_cases {G : Guard V} {x y : Config V} {l : Label V} (h : x.next G l = some y) :
    (∃ c, V.admits c x.world = true ∧ y.world = x.world ∧
      ∀ p ∈ y.procs, p ∈ x.procs ∨ p = ⟨c, [], some (V.code c)⟩) ∨
    (∃ p ∈ x.procs, ∃ op k choice a, p.prog = some (.call op k) ∧
      G p.call p.hist x.world op = true ∧ V.exec op choice x.world = some (a, y.world) ∧
      ∀ q ∈ y.procs, q ∈ x.procs ∨ q = ⟨p.call, ⟨op, a⟩ :: p.hist, some (k a)⟩) ∨
    (∃ p ∈ x.procs, y.world = x.world ∧
      ∀ q ∈ y.procs, q ∈ x.procs ∨ q = { p with prog := none }) ∨
    (∃ m, V.drift m x.world = some y.world ∧ y.procs = x.procs) := by
  cases l with
  | arrive c =>
      simp only [next] at h
      split at h
      · cases h
        refine .inl ⟨c, ‹_›, rfl, fun p hp => ?_⟩
        rwa [List.mem_append, List.mem_singleton] at hp
      · cases h
  | perform i choice =>
      simp only [next] at h
      split at h
      · rename_i p op k hpend
        obtain ⟨hp, hprog⟩ := pending_spec hpend
        split at h
        · obtain ⟨r, hr, hy⟩ := Option.map_eq_some_iff.mp h
          cases hy
          exact .inr (.inl ⟨p, List.mem_of_getElem? hp, op, k, choice, r.1, hprog, ‹_›, hr,
            fun q hq => List.mem_or_eq_of_mem_set hq⟩)
        · cases h
      · cases h
  | crash i =>
      obtain ⟨p, hp, hy⟩ := Option.map_eq_some_iff.mp h
      cases hy
      exact .inr (.inr (.inl ⟨p, List.mem_of_getElem? hp, rfl,
        fun q hq => List.mem_or_eq_of_mem_set hq⟩))
  | drift m =>
      obtain ⟨w, hw, hy⟩ := Option.map_eq_some_iff.mp h
      cases hy
      exact .inr (.inr (.inr ⟨m, hw, rfl⟩))

/-- **What performing an operation does.** -/
theorem next_perform {G : Guard V} {x y : Config V} {i : Nat} {choice : V.Choice} {p : Process V}
    {op : Op} {k : Except Err (Ans op) → Prog Ans Err V.Reply} (hp : x.procs[i]? = some p)
    (hprog : p.prog = some (.call op k)) (h : x.next G (.perform i choice) = some y) :
    ∃ a, G p.call p.hist x.world op = true ∧ V.exec op choice x.world = some (a, y.world) ∧
      y.procs[i]? = some ⟨p.call, ⟨op, a⟩ :: p.hist, some (k a)⟩ := by
  obtain ⟨c, hist, prog⟩ := p
  cases hprog
  simp only [next, pending, hp] at h
  split at h
  · obtain ⟨r, hr, hy⟩ := Option.map_eq_some_iff.mp h
    cases hy
    obtain ⟨hi, -⟩ := List.getElem?_eq_some_iff.mp hp
    exact ⟨r.1, ‹_›, hr, by simp [hi]⟩
  · cases h

/-- Only a process with an operation left performs one. -/
theorem pending_of_perform {G : Guard V} {x y : Config V} {i : Nat} {choice : V.Choice}
    (h : x.next G (.perform i choice) = some y) :
    ∃ p op k, x.procs[i]? = some p ∧ p.prog = some (.call op k) := by
  simp only [next] at h
  split at h
  · rename_i p op k hpend
    exact ⟨p, op, k, pending_spec hpend⟩
  · cases h

/-- An operation whose outcome can happen can be performed. -/
theorem next_serve {x : Config V} {i : Nat} {choice : V.Choice} {c : V.Call} {h : History Ans Err}
    {op : Op} {k : Except Err (Ans op) → Prog Ans Err V.Reply} {a : Except Err (Ans op)}
    {w : V.World} (hp : x.procs[i]? = some ⟨c, h, some (.call op k)⟩)
    (he : V.exec op choice x.world = some (a, w)) :
    ∃ y, x.next (fun _ _ _ _ => true) (.perform i choice) = some y ∧ y.world = w ∧
      y.procs[i]? = some ⟨c, ⟨op, a⟩ :: h, some (k a)⟩ ∧
      y.procs.map Process.call = x.procs.map Process.call := by
  obtain ⟨hi, hget⟩ := List.getElem?_eq_some_iff.mp hp
  refine ⟨⟨w, x.procs.set i ⟨c, ⟨op, a⟩ :: h, some (k a)⟩⟩, ?_, rfl, List.getElem?_set_self hi, ?_⟩
  · simp only [next, pending, hp, if_true, he, Option.map_some]
  · refine List.ext_getElem? fun j => ?_
    by_cases hij : i = j
    · subst hij
      rw [List.getElem?_map, List.getElem?_map, List.getElem?_set_self hi, hp]
      rfl
    · rw [List.getElem?_map, List.getElem?_map, List.getElem?_set_ne hij]

/-- A process stays, and its history only grows. -/
theorem next_hist {G : Guard V} {x y : Config V} {l : Label V} (h : x.next G l = some y) {i : Nat}
    {p : Process V} (hp : x.procs[i]? = some p) :
    ∃ q, y.procs[i]? = some q ∧ q.call = p.call ∧ p.hist <:+ q.hist := by
  obtain ⟨hi, hget⟩ := List.getElem?_eq_some_iff.mp hp
  cases l with
  | arrive c =>
      simp only [next] at h
      split at h <;> cases h
      exact ⟨p, by rw [List.getElem?_append_left hi, hp], rfl, List.suffix_refl _⟩
  | perform j choice =>
      simp only [next] at h
      split at h
      · rename_i p' op k hpend
        split at h
        · obtain ⟨r, -, hy⟩ := Option.map_eq_some_iff.mp h
          cases hy
          by_cases hij : j = i
          · subst hij
            cases (pending_spec hpend).1.symm.trans hp
            exact ⟨_, List.getElem?_set_self hi, rfl, List.suffix_cons _ _⟩
          · exact ⟨p, by rw [List.getElem?_set_ne hij, hp], rfl, List.suffix_refl _⟩
        · cases h
      · cases h
  | crash j =>
      obtain ⟨p', hp', hy⟩ := Option.map_eq_some_iff.mp h
      cases hy
      by_cases hij : j = i
      · subst hij
        cases hp'.symm.trans hp
        exact ⟨_, List.getElem?_set_self hi, rfl, List.suffix_refl _⟩
      · exact ⟨p, by rw [List.getElem?_set_ne hij, hp], rfl, List.suffix_refl _⟩
  | drift m =>
      obtain ⟨w, -, hy⟩ := Option.map_eq_some_iff.mp h
      cases hy
      exact ⟨p, hp, rfl, List.suffix_refl _⟩

/-- What a process has newly performed, it performed in this step. -/
theorem next_performed {G : Guard V} {x y : Config V} {l : Label V} (h : x.next G l = some y)
    {i : Nat} {p : Process V} (hp : y.procs[i]? = some p) {e : Event Ans Err} (he : e ∈ p.hist) :
    (∃ q, x.procs[i]? = some q ∧ e ∈ q.hist) ∨
      ∃ choice, l = .perform i choice ∧ V.exec e.op choice x.world = some (e.ans, y.world) := by
  cases l with
  | arrive c =>
      simp only [next] at h
      split at h <;> cases h
      rw [List.getElem?_append] at hp
      split at hp
      · exact .inl ⟨p, hp, he⟩
      · rw [List.mem_singleton.mp (List.mem_of_getElem? hp)] at he
        cases he
  | perform j choice =>
      obtain ⟨q, op, k, hq, hprog⟩ := pending_of_perform h
      simp only [next, pending] at h
      split at h
      · rename_i q' op' k' hpend
        split at h
        · obtain ⟨r, hr, hy⟩ := Option.map_eq_some_iff.mp h
          cases hy
          by_cases hij : j = i
          · subst hij
            obtain ⟨hi, -⟩ := List.getElem?_eq_some_iff.mp hq
            rw [List.getElem?_set_self hi, Option.some.injEq] at hp
            subst hp
            rcases List.mem_cons.mp he with rfl | he
            · exact .inr ⟨choice, rfl, hr⟩
            · exact .inl ⟨q', (pending_spec hpend).1, he⟩
          · rw [List.getElem?_set_ne hij] at hp
            exact .inl ⟨p, hp, he⟩
        · cases h
      · cases h
  | crash j =>
      obtain ⟨q, hq, hy⟩ := Option.map_eq_some_iff.mp h
      cases hy
      by_cases hij : j = i
      · subst hij
        obtain ⟨hi, -⟩ := List.getElem?_eq_some_iff.mp hq
        rw [List.getElem?_set_self hi, Option.some.injEq] at hp
        subst hp
        exact .inl ⟨q, hq, he⟩
      · rw [List.getElem?_set_ne hij] at hp
        exact .inl ⟨p, hp, he⟩
  | drift m =>
      obtain ⟨w, -, hy⟩ := Option.map_eq_some_iff.mp h
      cases hy
      exact .inl ⟨p, hp, he⟩

end Config

/-- Runs all of whose operations pass the guard. -/
def Reaches (G : Guard V) : Config V → Config V → Prop :=
  Relation.ReflTransGen fun x y => ∃ l, x.next G l = some y

theorem Reaches.hist {G : Guard V} {x y : Config V} (h : Reaches G x y) {i : Nat} {p : Process V}
    (hp : x.procs[i]? = some p) :
    ∃ q, y.procs[i]? = some q ∧ q.call = p.call ∧ p.hist <:+ q.hist := by
  induction h with
  | refl => exact ⟨p, hp, rfl, List.suffix_refl _⟩
  | tail _ hstep ih =>
      obtain ⟨l, hl⟩ := hstep
      obtain ⟨q, hq, hcall, hsuf⟩ := ih
      obtain ⟨r, hr, hcall', hsuf'⟩ := Config.next_hist hl hq
      exact ⟨r, hr, hcall'.trans hcall, hsuf.trans hsuf'⟩

/-- **Who performed it.** What a process performed by the end of a run, it had performed at its start
or performed in one of its steps. -/
theorem Reaches.performed {G : Guard V} {x y : Config V} (h : Reaches G x y) {i : Nat}
    {p : Process V} (hp : y.procs[i]? = some p) {e : Event Ans Err} (he : e ∈ p.hist) :
    (∃ q, x.procs[i]? = some q ∧ e ∈ q.hist) ∨
      ∃ z choice z', Reaches G x z ∧ z.next G (.perform i choice) = some z' ∧ Reaches G z' y ∧
        V.exec e.op choice z.world = some (e.ans, z'.world) := by
  induction h generalizing p with
  | refl => exact .inl ⟨p, hp, he⟩
  | tail hrun hstep ih =>
      obtain ⟨l, hl⟩ := hstep
      rcases Config.next_performed hl hp he with ⟨q, hq, heq⟩ | ⟨choice, rfl, hexec⟩
      · rcases ih hq heq with hbefore | ⟨z, choice, z', hxz, hzz, hzy, hexec⟩
        · exact .inl hbefore
        · exact .inr ⟨z, choice, z', hxz, hzz, hzy.tail ⟨l, hl⟩, hexec⟩
      · exact .inr ⟨_, choice, _, hrun, hl, .refl, hexec⟩

/-- **When it became so.** What holds at the end of a run and not at its start became so in one of
its steps. -/
theorem Reaches.became {G : Guard V} {P : Config V → Prop} {x y : Config V} (h : Reaches G x y)
    (hx : ¬ P x) (hy : P y) :
    ∃ z l z', Reaches G x z ∧ z.next G l = some z' ∧ Reaches G z' y ∧ ¬ P z ∧ P z' := by
  induction h with
  | refl => exact absurd hy hx
  | @tail u y hrun hstep ih =>
      obtain ⟨l, hl⟩ := hstep
      by_cases hu : P u
      · obtain ⟨z, m, z', hxz, hm, hzu, hz, hz'⟩ := ih hu
        exact ⟨z, m, z', hxz, hm, hzu.tail ⟨l, hl⟩, hz, hz'⟩
      · exact ⟨u, l, y, hrun, hl, .refl, hu, hy⟩

theorem reaches_of_run {G : Guard V} {ls : List (Label V)} {x y : Config V}
    (h : x.run G ls = some y) : Reaches G x y := by
  induction ls generalizing x with
  | nil => cases h; exact .refl
  | cons l ls ih =>
      obtain ⟨z, hz, hy⟩ := Option.bind_eq_some_iff.mp h
      exact .head ⟨l, hz⟩ (ih hy)

/-- A guarded run is a run. -/
theorem Reaches.free {G : Guard V} {x y : Config V} (h : Reaches G x y) :
    Reaches Guard.free x y := by
  refine Relation.ReflTransGen.mono ?_ _ _ h
  rintro a b ⟨l, hl⟩
  refine ⟨l, ?_⟩
  cases l with
  | perform i choice =>
      simp only [Config.next] at hl ⊢
      split at hl
      · split at hl
        · exact hl
        · cases hl
      · cases hl
  | arrive c => exact hl
  | crash i => exact hl
  | drift m => exact hl

/-! ## Outlines -/

/-- A proof outline: an invariant of the world, a relation no step leaves, and what the history of a
call still says about the world. `possible` are the answers an operation can get, `just` is what a
program promises before each operation. -/
structure Outline (V : Service Ans Err) (G : Guard V) where
  inv : V.World → Prop
  rel : V.World → V.World → Prop
  know : V.Call → History Ans Err → V.World → Prop
  possible : Event Ans Err → Prop
  just : V.Call → History Ans Err → Op → Prop
  rel_refl : ∀ w, rel w w
  rel_trans : ∀ {u v w}, rel u v → rel v w → rel u w
  know_nil : ∀ {c w}, inv w → V.admits c w = true → know c [] w
  know_rel : ∀ {c h u w}, rel u w → know c h u → know c h w
  drift : ∀ {m u w}, inv u → V.drift m u = some w → inv w ∧ rel u w
  exec : ∀ {c h op choice u a w}, inv u → know c h u → just c h op → G c h u op = true →
    V.exec op choice u = some (a, w) → inv w ∧ rel u w ∧ know c (⟨op, a⟩ :: h) w
  answer : ∀ {op choice u a w}, V.exec op choice u = some (a, w) → possible ⟨op, a⟩
  code : ∀ {c w}, V.admits c w = true →
    (V.code c).Along possible (just c) (fun _ _ => True) []

namespace Outline

variable {G : Guard V} (O : Outline V G)

/-- The outline holds of a configuration. -/
structure Holds (x : Config V) : Prop where
  inv : O.inv x.world
  know : ∀ p ∈ x.procs, O.know p.call p.hist x.world
  just : ∀ p ∈ x.procs, ∀ q, p.prog = some q →
    q.Along O.possible (O.just p.call) (fun _ _ => True) p.hist

theorem holds_init {w : V.World} (h : O.inv w) : O.Holds ⟨w, []⟩ where
  inv := h
  know := fun _ hp => absurd hp List.not_mem_nil
  just := fun _ hp => absurd hp List.not_mem_nil

/-- The operation a process is about to perform is justified. -/
theorem Holds.justified {O : Outline V G} {x : Config V} (hx : O.Holds x) {p : Process V}
    (hp : p ∈ x.procs) {op : Op} {k : Except Err (Ans op) → Prog Ans Err V.Reply}
    (h : p.prog = some (.call op k)) : O.just p.call p.hist op := (hx.just p hp _ h).1

/-- **Step rule.** -/
theorem holds_next {x y : Config V} {l : Label V} (hx : O.Holds x)
    (h : x.next G l = some y) : O.Holds y ∧ O.rel x.world y.world := by
  rcases Config.next_cases h with ⟨c, hc, hw, hy⟩ | ⟨p, hp, op, k, choice, a, hk, hG, he, hy⟩ |
    ⟨p, hp, hw, hy⟩ | ⟨m, hm, hy⟩
  · rw [hw]
    refine ⟨⟨hw ▸ hx.inv, fun p hp => ?_, fun p hp q hq => ?_⟩, O.rel_refl _⟩
    · rw [hw]
      rcases hy p hp with hp | rfl
      · exact hx.know p hp
      · exact O.know_nil hx.inv hc
    · rcases hy p hp with hp | rfl
      · exact hx.just p hp q hq
      · cases hq
        exact O.code hc
  · have hjust := hx.just p hp _ hk
    obtain ⟨hinv, hrel, hknow⟩ := O.exec hx.inv (hx.know p hp) hjust.1 hG he
    refine ⟨⟨hinv, fun q hq => ?_, fun q hq r hr => ?_⟩, hrel⟩
    · rcases hy q hq with hq | rfl
      · exact O.know_rel hrel (hx.know q hq)
      · exact hknow
    · rcases hy q hq with hq | rfl
      · exact hx.just q hq r hr
      · cases hr
        exact hjust.2 a (O.answer he)
  · rw [hw]
    refine ⟨⟨hw ▸ hx.inv, fun q hq => ?_, fun q hq r hr => ?_⟩, O.rel_refl _⟩
    · rw [hw]
      rcases hy q hq with hq | rfl
      · exact hx.know q hq
      · exact hx.know p hp
    · rcases hy q hq with hq | rfl
      · exact hx.just q hq r hr
      · cases hr
  · obtain ⟨hinv, hrel⟩ := O.drift hx.inv hm
    refine ⟨⟨hinv, fun q hq => ?_, fun q hq r hr => ?_⟩, hrel⟩
    · rw [hy] at hq
      exact O.know_rel hrel (hx.know q hq)
    · rw [hy] at hq
      exact hx.just q hq r hr

/-- **Run rule.** -/
theorem holds_reaches {x y : Config V} (hx : O.Holds x) (h : Reaches G x y) :
    O.Holds y ∧ O.rel x.world y.world := by
  induction h with
  | refl => exact ⟨hx, O.rel_refl _⟩
  | tail _ hstep ih =>
      obtain ⟨l, hl⟩ := hstep
      obtain ⟨hy, hrel⟩ := O.holds_next ih.1 hl
      exact ⟨hy, O.rel_trans ih.2 hrel⟩

end Outline

/-- A further invariant, relation and knowledge over an outline whose facts its steps may use. -/
structure Layer (O : Outline V Guard.free) (G' : Guard V) where
  inv : V.World → Prop
  rel : V.World → V.World → Prop
  know : V.Call → History Ans Err → V.World → Prop
  rel_refl : ∀ w, rel w w
  rel_trans : ∀ {u v w}, rel u v → rel v w → rel u w
  know_nil : ∀ {c w}, O.inv w → inv w → V.admits c w = true → know c [] w
  know_rel : ∀ {c h u w}, O.rel u w → rel u w → know c h u → know c h w
  drift : ∀ {m u w}, O.inv u → O.rel u w → inv u → V.drift m u = some w → inv w ∧ rel u w
  exec : ∀ {c h op choice u a w}, O.inv u → O.know c h u → O.just c h op →
    O.inv w → O.rel u w → O.know c (⟨op, a⟩ :: h) w →
    inv u → know c h u → G' c h u op = true →
    V.exec op choice u = some (a, w) → inv w ∧ rel u w ∧ know c (⟨op, a⟩ :: h) w

/-- The conjunction of an outline and a layer over it. -/
def Layer.outline {G' : Guard V} {O : Outline V Guard.free} (L : Layer O G') : Outline V G' where
  inv w := O.inv w ∧ L.inv w
  rel u w := O.rel u w ∧ L.rel u w
  know c h w := O.know c h w ∧ L.know c h w
  possible := O.possible
  just := O.just
  rel_refl w := ⟨O.rel_refl w, L.rel_refl w⟩
  rel_trans huv hvw := ⟨O.rel_trans huv.1 hvw.1, L.rel_trans huv.2 hvw.2⟩
  know_nil hinv hc := ⟨O.know_nil hinv.1 hc, L.know_nil hinv.1 hinv.2 hc⟩
  know_rel hrel hk := ⟨O.know_rel hrel.1 hk.1, L.know_rel hrel.1 hrel.2 hk.2⟩
  drift hinv hm := by
    obtain ⟨hOi, hOr⟩ := O.drift hinv.1 hm
    obtain ⟨hLi, hLr⟩ := L.drift hinv.1 hOr hinv.2 hm
    exact ⟨⟨hOi, hLi⟩, hOr, hLr⟩
  exec hinv hk hj hG he := by
    obtain ⟨hOi, hOr, hOk⟩ := O.exec hinv.1 hk.1 hj rfl he
    obtain ⟨hLi, hLr, hLk⟩ := L.exec hinv.1 hk.1 hj hOi hOr hOk hinv.2 hk.2 hG he
    exact ⟨⟨hOi, hLi⟩, ⟨hOr, hLr⟩, hOk, hLk⟩
  answer := O.answer
  code := O.code

end Effect
