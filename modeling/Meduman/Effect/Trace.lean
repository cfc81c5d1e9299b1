import Meduman.Effect.Policy

/-!
# What an undisturbed program leaves

A program run by itself, with the operations it performed and the world it leaves. Which outcomes an
operation may meet is a parameter.

* `Prog.Runs` : the program ended, by these operations, in this world
* `Prog.Ensures` : whatever it meets, it ends in a world and a history of this kind
* `ensures_bind`, `ensures_tryCatch`, … : its rules
* `Prog.Ensures.runs` : what a program ensures holds of its runs
* `runs_bind`, `runs_tryCatch_error`, … : how runs compose
* `Prog.Heeds` : whatever it meets, each operation is performed under this condition
* `Prog.Heeds.reaches`, `Prog.Heeds.follows` : so a call that runs by itself keeps to a guard or a policy
-/

set_option autoImplicit false

namespace Effect

variable {Op : Type} {Ans : Op → Type} {Err : Type} {V : Service Ans Err} {α β : Type}

namespace Prog

/-- From world `w` the program performs `l`, each outcome one its operation may meet, and ends with
`r` in world `w'`. -/
def Runs (V : Service Ans Err) (may : Op → V.Choice → Prop) :
    Prog Ans Err α → V.World → History Ans Err → Except Err α → V.World → Prop
  | .done r₀, w, l, r, w' => l = [] ∧ r = r₀ ∧ w' = w
  | .call op k, w, l, r, w' => ∃ choice a u l', may op choice ∧ V.exec op choice w = some (a, u) ∧
      Runs V may (k a) u l' r w' ∧ l = l' ++ [⟨op, a⟩]

/-- From world `w` and history `h`, whatever outcomes the operations meet, the program ends as `Q`
says. -/
def Ensures (V : Service Ans Err) (may : Op → V.Choice → Prop)
    (Q : Except Err α → V.World → History Ans Err → Prop) :
    Prog Ans Err α → V.World → History Ans Err → Prop
  | .done r, w, h => Q r w h
  | .call op k, w, h => ∀ choice a u, may op choice → V.exec op choice w = some (a, u) →
      Ensures V may Q (k a) u (⟨op, a⟩ :: h)

end Prog

variable {may : Op → V.Choice → Prop} {Q : Except Err α → V.World → History Ans Err → Prop}
  {R : Except Err β → V.World → History Ans Err → Prop} {w : V.World} {h : History Ans Err}

@[simp] theorem ensures_done (r : Except Err α) :
    (Prog.done r).Ensures V may Q w h ↔ Q r w h := Iff.rfl

@[simp] theorem ensures_throw (e : Err) :
    (Prog.throw e : Prog Ans Err α).Ensures V may Q w h ↔ Q (.error e) w h := Iff.rfl

theorem ensures_call (op : Op) (k : Except Err (Ans op) → Prog Ans Err α) :
    (Prog.call op k).Ensures V may Q w h ↔ ∀ choice a u, may op choice →
      V.exec op choice w = some (a, u) → (k a).Ensures V may Q u (⟨op, a⟩ :: h) := Iff.rfl

theorem Prog.Ensures.mono {Q' : Except Err α → V.World → History Ans Err → Prop}
    {p : Prog Ans Err α} (hp : p.Ensures V may Q w h) (hQ : ∀ r w h, Q r w h → Q' r w h) :
    p.Ensures V may Q' w h := by
  induction p generalizing w h with
  | done r => exact hQ r w h hp
  | call op k ih => exact fun choice a u hm he => ih a (hp choice a u hm he)

/-- What always holds. -/
theorem ensures_any {p : Prog Ans Err α} (hQ : ∀ r w h, Q r w h) : p.Ensures V may Q w h := by
  induction p generalizing w h with
  | done r => exact hQ r w h
  | call op k ih => exact fun choice a u _ _ => ih a

/-- What a sequenced program needs of its first part. -/
def Prog.EnsuresThen (V : Service Ans Err) (may : Op → V.Choice → Prop)
    (R : Except Err β → V.World → History Ans Err → Prop) (f : α → Prog Ans Err β) :
    Except Err α → V.World → History Ans Err → Prop
  | .ok a, w, h => (f a).Ensures V may R w h
  | .error e, w, h => R (.error e) w h

/-- **Sequencing.** -/
theorem ensures_bind (p : Prog Ans Err α) (f : α → Prog Ans Err β) :
    (p >>= f).Ensures V may R w h ↔
      p.Ensures V may (Prog.EnsuresThen V may R f) w h := by
  induction p generalizing w h with
  | done r => cases r <;> exact Iff.rfl
  | call op k ih =>
      simp only [Prog.bind_call, ensures_call, ih]

/-- What a protected program needs. -/
def Prog.EnsuresElse (V : Service Ans Err) (may : Op → V.Choice → Prop)
    (Q : Except Err α → V.World → History Ans Err → Prop) (handler : Err → Prog Ans Err α) :
    Except Err α → V.World → History Ans Err → Prop
  | .ok a, w, h => Q (.ok a) w h
  | .error e, w, h => (handler e).Ensures V may Q w h

/-- **Error handling.** -/
theorem ensures_tryCatch (p : Prog Ans Err α) (handler : Err → Prog Ans Err α) :
    (p.tryCatch handler).Ensures V may Q w h ↔
      p.Ensures V may (Prog.EnsuresElse V may Q handler) w h := by
  induction p generalizing w h with
  | done r => cases r <;> exact Iff.rfl
  | call op k ih =>
      simp only [Prog.tryCatch, ensures_call, ih]

/-- **Sequencing after one operation.** -/
theorem ensures_perform_bind (op : Op) (f : Ans op → Prog Ans Err β) :
    (Prog.perform op >>= f).Ensures V may R w h ↔ ∀ choice a u, may op choice →
      V.exec op choice w = some (a, u) →
        Prog.EnsuresThen V may R f a u (⟨op, a⟩ :: h) := by
  rw [ensures_bind]
  exact Iff.rfl

/-- **Harmless programs.** Where every operation keeps `K` of the world, the program does. -/
theorem Prog.Uses.ensures {A : Op → Prop} {K : V.World → V.World → Prop} {p : Prog Ans Err α}
    (hp : p.Uses A) (refl : ∀ w, K w w) (trans : ∀ {u v w}, K u v → K v w → K u w)
    (keeps : ∀ {op choice u a v}, A op → V.exec op choice u = some (a, v) → K u v)
    (hQ : ∀ r w' l, (∀ e ∈ l, A e.op) → K w w' → Q r w' (l ++ h)) : p.Ensures V may Q w h := by
  induction p generalizing w h with
  | done r => exact hQ r w [] (fun _ he => absurd he List.not_mem_nil) (refl w)
  | call op k ih =>
      intro choice a u _ he
      refine ih a (hp.2 a) fun r w' l hl hK => ?_
      have hcons := hQ r w' (l ++ [⟨op, a⟩]) (fun e he' => ?_) (trans (keeps hp.1 he) hK)
      · rwa [List.append_assoc] at hcons
      · rcases List.mem_append.mp he' with he' | he'
        · exact hl e he'
        · rw [List.mem_singleton.mp he']
          exact hp.1

/-- **What a program ensures holds of its runs.** -/
theorem Prog.Ensures.runs {p : Prog Ans Err α} (hp : p.Ensures V may Q w h)
    {l : History Ans Err} {r : Except Err α} {w' : V.World} (hr : p.Runs V may w l r w') :
    Q r w' (l ++ h) := by
  induction p generalizing w h l with
  | done r₀ =>
      obtain ⟨rfl, rfl, rfl⟩ := hr
      exact hp
  | call op k ih =>
      obtain ⟨choice, a, u, l', hm, he, hk, rfl⟩ := hr
      rw [List.append_assoc]
      exact ih a (hp choice a u hm he) hk

/-! ## Runs -/

theorem runs_bind {p : Prog Ans Err α} {f : α → Prog Ans Err β} {u w' : V.World}
    {l l' : History Ans Err} {a : α} {r : Except Err β} (hp : p.Runs V may w l (.ok a) u)
    (hf : (f a).Runs V may u l' r w') : (p >>= f).Runs V may w (l' ++ l) r w' := by
  induction p generalizing w l with
  | done r₀ =>
      obtain ⟨rfl, rfl, rfl⟩ := hp
      rwa [List.append_nil]
  | call op k ih =>
      obtain ⟨choice, b, v, l₀, hm, he, hk, rfl⟩ := hp
      exact ⟨choice, b, v, l' ++ l₀, hm, he, ih b hk, (List.append_assoc _ _ _).symm⟩

theorem runs_bind_error {p : Prog Ans Err α} {f : α → Prog Ans Err β} {u : V.World}
    {l : History Ans Err} {e : Err} (hp : p.Runs V may w l (.error e) u) :
    (p >>= f).Runs V may w l (.error e) u := by
  induction p generalizing w l with
  | done r₀ =>
      obtain ⟨rfl, rfl, rfl⟩ := hp
      exact ⟨rfl, rfl, rfl⟩
  | call op k ih =>
      obtain ⟨choice, b, v, l₀, hm, he, hk, rfl⟩ := hp
      exact ⟨choice, b, v, l₀, hm, he, ih b hk, rfl⟩

theorem runs_tryCatch_error {p : Prog Ans Err α} {handler : Err → Prog Ans Err α} {u w' : V.World}
    {l l' : History Ans Err} {e : Err} {r : Except Err α} (hp : p.Runs V may w l (.error e) u)
    (hh : (handler e).Runs V may u l' r w') :
    (p.tryCatch handler).Runs V may w (l' ++ l) r w' := by
  induction p generalizing w l with
  | done r₀ =>
      obtain ⟨rfl, rfl, rfl⟩ := hp
      rwa [List.append_nil]
  | call op k ih =>
      obtain ⟨choice, b, v, l₀, hm, he, hk, rfl⟩ := hp
      exact ⟨choice, b, v, l' ++ l₀, hm, he, ih b hk, (List.append_assoc _ _ _).symm⟩

theorem runs_pure (a : α) (w : V.World) :
    (pure a : Prog Ans Err α).Runs V may w [] (.ok a) w := ⟨rfl, rfl, rfl⟩

theorem runs_perform {op : Op} {choice : V.Choice} {a : Except Err (Ans op)} {u : V.World}
    (he : V.exec op choice w = some (a, u)) (hm : may op choice) :
    (Prog.perform op).Runs V may w [⟨op, a⟩] a u :=
  ⟨choice, a, u, [], hm, he, ⟨rfl, rfl, rfl⟩, rfl⟩

/-! ## What an undisturbed program heeds -/

/-- From world `w` and history `h`, whatever outcomes the operations meet, each of them is performed as
`G` says. -/
def Prog.Heeds (V : Service Ans Err) (may : Op → V.Choice → Prop)
    (G : History Ans Err → V.World → Op → Prop) :
    Prog Ans Err α → V.World → History Ans Err → Prop
  | .done _, _, _ => True
  | .call op k, w, h => G h w op ∧ ∀ choice a u, may op choice →
      V.exec op choice w = some (a, u) → Heeds V may G (k a) u (⟨op, a⟩ :: h)

section Heeds

variable {G : History Ans Err → V.World → Op → Prop}

theorem heeds_bind {p : Prog Ans Err α} {f : α → Prog Ans Err β} (hp : p.Heeds V may G w h)
    (hf : p.Ensures V may (fun r w h => ∀ a, r = .ok a → (f a).Heeds V may G w h) w h) :
    (p >>= f).Heeds V may G w h := by
  induction p generalizing w h with
  | done r =>
      cases r with
      | ok a => exact hf a rfl
      | error e => trivial
  | call op k ih =>
      exact ⟨hp.1, fun choice a u hm he => ih a (hp.2 choice a u hm he) (hf choice a u hm he)⟩

theorem heeds_tryCatch {p : Prog Ans Err α} {handler : Err → Prog Ans Err α}
    (hp : p.Heeds V may G w h)
    (hh : p.Ensures V may (fun r w h => ∀ e, r = .error e → (handler e).Heeds V may G w h) w h) :
    (p.tryCatch handler).Heeds V may G w h := by
  induction p generalizing w h with
  | done r =>
      cases r with
      | ok a => trivial
      | error e => exact hh e rfl
  | call op k ih =>
      exact ⟨hp.1, fun choice a u hm he => ih a (hp.2 choice a u hm he) (hh choice a u hm he)⟩

theorem heeds_perform {op : Op} (hop : G h w op) : (Prog.perform op).Heeds V may G w h :=
  ⟨hop, fun _ _ _ _ _ => trivial⟩

theorem heeds_perform_bind {op : Op} {f : Ans op → Prog Ans Err β} (hop : G h w op)
    (hf : ∀ choice a u, may op choice → V.exec op choice w = some (.ok a, u) →
      (f a).Heeds V may G u (⟨op, .ok a⟩ :: h)) :
    (Prog.perform op >>= f).Heeds V may G w h := by
  refine ⟨hop, fun choice r u hm he => ?_⟩
  cases r with
  | ok a => exact hf choice a u hm he
  | error e => trivial

/-- A program none of whose operations is restricted. -/
theorem Prog.Uses.heeds {A : Op → Prop} {p : Prog Ans Err α} (hp : p.Uses A)
    (pass : ∀ h w op, A op → G h w op) : p.Heeds V may G w h := by
  induction p generalizing w h with
  | done r => trivial
  | call op k ih => exact ⟨pass h w op hp.1, fun _ a _ _ _ => ih a (hp.2 a)⟩

/-- **A call that heeds a condition** runs by itself through steps that meet it. -/
theorem Prog.Heeds.run {S : Config V → Config V → Prop} {i : Nat} {c : V.Call}
    (step : ∀ {x y : Config V} {choice h op k}, x.procs[i]? = some ⟨c, h, some (.call op k)⟩ →
      G h x.world op → x.next Guard.free (.perform i choice) = some y → S x y)
    {p : Prog Ans Err V.Reply} {x : Config V} {h l : History Ans Err} {r : Except Err V.Reply}
    {w : V.World} (hi : x.procs[i]? = some ⟨c, h, some p⟩) (hp : p.Heeds V may G x.world h)
    (hr : p.Runs V may x.world l r w) :
    Relation.ReflTransGen S x ⟨w, x.procs.set i ⟨c, l ++ h, some (.done r)⟩⟩ := by
  induction p generalizing x h l with
  | done r₀ =>
      obtain ⟨rfl, rfl, rfl⟩ := hr
      obtain ⟨hlt, hget⟩ := List.getElem?_eq_some_iff.mp hi
      have hsame : x.procs.set i ⟨c, [] ++ h, some (.done r)⟩ = x.procs := by
        rw [List.nil_append, ← hget, List.set_getElem_self]
      rw [hsame]
  | call op k ih =>
      obtain ⟨choice, a, u, l', hm, he, hk, rfl⟩ := hr
      obtain ⟨hlt, -⟩ := List.getElem?_eq_some_iff.mp hi
      have hnext : x.next Guard.free (.perform i choice) =
          some ⟨u, x.procs.set i ⟨c, ⟨op, a⟩ :: h, some (k a)⟩⟩ := by
        simp only [Config.next, Config.pending, hi, Guard.free, if_true, he, Option.map_some]
      have hrest := ih a (x := ⟨u, x.procs.set i ⟨c, ⟨op, a⟩ :: h, some (k a)⟩⟩)
        (List.getElem?_set_self hlt) (hp.2 choice a u hm he) hk
      rw [List.set_set] at hrest
      rw [List.append_assoc]
      exact .head (step hi hp.1 hnext) hrest

/-- An undisturbed call whose operations all pass a guard. -/
theorem Prog.Heeds.reaches {G : Guard V} {i : Nat} {c : V.Call} {p : Prog Ans Err V.Reply}
    {x : Config V} {h l : History Ans Err} {r : Except Err V.Reply} {w : V.World}
    (hi : x.procs[i]? = some ⟨c, h, some p⟩)
    (hp : p.Heeds V may (fun h u op => G c h u op = true) x.world h)
    (hr : p.Runs V may x.world l r w) :
    Reaches G x ⟨w, x.procs.set i ⟨c, l ++ h, some (.done r)⟩⟩ := by
  refine hp.run (fun {x y choice h op k} hi hG hnext => ⟨.perform i choice, ?_⟩) hi hr
  rw [← hnext]
  simp only [Config.next, Config.pending, hi, hG, Guard.free]

/-- An undisturbed call whose operations all pass a policy. -/
theorem Prog.Heeds.follows {P : Policy V} {i : Nat} {c : V.Call} {p : Prog Ans Err V.Reply}
    {x : Config V} {h l : History Ans Err} {r : Except Err V.Reply} {w : V.World}
    (pass : ∀ {x : Config V} {choice h op k}, x.procs[i]? = some ⟨c, h, some (.call op k)⟩ →
      G h x.world op → P x (.perform i choice) = true)
    (hi : x.procs[i]? = some ⟨c, h, some p⟩) (hp : p.Heeds V may G x.world h)
    (hr : p.Runs V may x.world l r w) :
    Follows P x ⟨w, x.procs.set i ⟨c, l ++ h, some (.done r)⟩⟩ :=
  hp.run (fun {_ _ choice _ _ _} hi hG hnext => ⟨.perform i choice, pass hi hG, hnext⟩) hi hr

end Heeds

end Effect
