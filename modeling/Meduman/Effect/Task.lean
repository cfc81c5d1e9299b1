import Meduman.Effect.Policy

/-!
# Half-done work

Between two of its operations a call may have begun something it has yet to finish. What is left is
read off its history: the newest event that says anything about it decides.

* `task` : what a history leaves to be done
* `Prog.Tidy` : a program that leaves nothing to be done
* `Reaches.inProgress` : whoever has something left to do is still running, or was cut off
* `Config.Step.exists_task` : a task stays with its process, until that process moves
-/

set_option autoImplicit false

namespace Effect

variable {Op : Type} {Ans : Op → Type} {Err : Type} {α β τ : Type}

/-- What a history leaves to be done: `leaves` tells what is left after an event, or that the event
says nothing about it. -/
def task (leaves : Event Ans Err → Option (Option τ)) (h : History Ans Err) : Option τ :=
  (h.findSome? leaves).join

section Task

variable {leaves : Event Ans Err → Option (Option τ)} {h : History Ans Err}

@[simp] theorem task_nil : task leaves [] = none := rfl

theorem task_cons (e : Event Ans Err) (h : History Ans Err) :
    task leaves (e :: h) = (leaves e).getD (task leaves h) := by
  unfold task
  rw [List.findSome?_cons]
  cases leaves e <;> rfl

theorem task_append {l : History Ans Err} (hl : ∀ e ∈ l, leaves e = none) :
    task leaves (l ++ h) = task leaves h := by
  induction l with
  | nil => rfl
  | cons e l ih =>
      rw [List.cons_append, task_cons, hl e List.mem_cons_self,
        ih fun e he => hl e (List.mem_cons_of_mem _ he)]
      rfl

/-- The event leaves nothing to be done. -/
def Clears (leaves : Event Ans Err → Option (Option τ)) (e : Event Ans Err) : Prop :=
  (leaves e).getD none = none

theorem Clears.task_cons {e : Event Ans Err} (he : Clears leaves e) (hh : task leaves h = none) :
    task leaves (e :: h) = none := by
  rw [Effect.task_cons, hh]
  exact he

theorem Clears.task_append {l : History Ans Err} (hl : ∀ e ∈ l, Clears leaves e)
    (hh : task leaves h = none) : task leaves (l ++ h) = none := by
  induction l with
  | nil => exact hh
  | cons e l ih =>
      exact (hl e List.mem_cons_self).task_cons
        (ih fun e he => hl e (List.mem_cons_of_mem _ he))

/-! ## Programs that leave nothing -/

/-- With nothing left to do at its start, the program keeps its promise and leaves nothing. -/
def Prog.Tidy (leaves : Event Ans Err → Option (Option τ)) (P : Event Ans Err → Prop)
    (J : History Ans Err → Op → Prop) (p : Prog Ans Err α) : Prop :=
  ∀ h, task leaves h = none → p.Along P J (fun _ h' => task leaves h' = none) h

variable {P : Event Ans Err → Prop} {J : History Ans Err → Op → Prop}

theorem tidy_done (r : Except Err α) : (Prog.done r).Tidy leaves P J := fun _ hh => hh

theorem Prog.Tidy.bind {p : Prog Ans Err α} {f : α → Prog Ans Err β} (hp : p.Tidy leaves P J)
    (hf : ∀ a, (f a).Tidy leaves P J) : (p >>= f).Tidy leaves P J := by
  intro h hh
  rw [along_bind]
  refine (hp h hh).mono fun r h' hh' => ?_
  cases r with
  | ok a => exact hf a h' hh'
  | error e => exact hh'

theorem Prog.Tidy.tryCatch {p : Prog Ans Err α} {handler : Err → Prog Ans Err α}
    (hp : p.Tidy leaves P J) (hh : ∀ e, (handler e).Tidy leaves P J) :
    (p.tryCatch handler).Tidy leaves P J := by
  intro h hnone
  rw [along_tryCatch]
  refine (hp h hnone).mono fun r h' hh' => ?_
  cases r with
  | ok a => exact hh'
  | error e => exact hh e h' hh'

/-- The operation has nothing to do with the tasks. -/
def Aside (leaves : Event Ans Err → Option (Option τ)) (J : History Ans Err → Op → Prop)
    (op : Op) : Prop :=
  (∀ a, Clears leaves ⟨op, a⟩) ∧ ∀ h, task leaves h = none → J h op

theorem Prog.Uses.tidy {p : Prog Ans Err α} (hp : p.Uses (Aside leaves J)) :
    p.Tidy leaves P J := by
  induction p with
  | done r => exact tidy_done r
  | call op k ih =>
      exact fun h hh => ⟨hp.1.2 h hh, fun a _ => ih a (hp.2 a) _ ((hp.1.1 a).task_cons hh)⟩

theorem tidy_perform {op : Op} (hop : Aside leaves J op) :
    (Prog.perform op : Prog Ans Err (Ans op)).Tidy leaves P J := (uses_perform hop).tidy

end Task

/-! ## Runs -/

variable {V : Service Ans Err} {x y : Config V}

/-- The call has operations left. -/
def Process.InProgress (p : Process V) : Prop := ∃ op k, p.prog = some (.call op k)

variable {leaves : Event Ans Err → Option (Option τ)}

/-- No call has operations left. -/
def Config.atRest (x : Config V) : Bool :=
  x.procs.all fun p => match p.prog with
    | some (.call _ _) => false
    | _ => true

theorem Config.not_inProgress {x : Config V} (h : x.atRest = true) {p : Process V}
    (hp : p ∈ x.procs) : ¬ p.InProgress := by
  rintro ⟨op, k, hk⟩
  have hrest := List.all_eq_true.mp h p hp
  simp only [hk] at hrest
  cases hrest

/-- **Whoever has something left to do is still running,** unless it was cut off. -/
theorem Reaches.inProgress {G : Guard V} {P : Event Ans Err → Prop}
    {J : V.Call → History Ans Err → Op → Prop}
    (answer : ∀ {op choice u a w}, V.exec op choice u = some (a, w) → P ⟨op, a⟩)
    (code : ∀ {c w}, V.admits c w = true → (V.code c).Tidy leaves P (J c))
    {w : V.World} (h : Reaches G ⟨w, []⟩ y) {p : Process V} (hp : p ∈ y.procs)
    (htask : task leaves p.hist ≠ none) (huncut : p.prog ≠ none) : p.InProgress := by
  obtain ⟨q, hq⟩ := Option.ne_none_iff_exists'.mp huncut
  have halong := h.along (R := fun _ _ h => task leaves h = none) answer
    (fun hadm => code hadm [] rfl) p hp q hq
  cases q with
  | done r => exact absurd halong htask
  | call op k => exact ⟨op, k, hq⟩

/-- **A task stays with its process,** unless that process is the one that moves. -/
theorem Config.Step.exists_task {l : Label V} (hs : x.Step y l) {k : τ}
    (h : ∃ p ∈ x.procs, task leaves p.hist = some k) :
    (∃ p ∈ y.procs, task leaves p.hist = some k) ∨
    ∃ i choice p op k' a, l = .perform i choice ∧ x.procs[i]? = some p ∧
      p.prog = some (.call op k') ∧ V.exec op choice x.world = some (a, y.world) ∧
      ⟨p.call, ⟨op, a⟩ :: p.hist, some (k' a)⟩ ∈ y.procs ∧ task leaves p.hist = some k := by
  cases hs with
  | arrive hadm hw hprocs =>
      obtain ⟨p, hp, hk⟩ := h
      exact .inl ⟨p, by rw [hprocs]; exact List.mem_append_left _ hp, hk⟩
  | perform hp hk he hprocs =>
      rw [hprocs]
      exact (exists_mem_set hp h).imp_right fun htask =>
        ⟨_, _, _, _, _, _, rfl, hp, hk, he, mem_set_self hp, htask⟩
  | crash hp hw hprocs =>
      rw [hprocs]
      exact .inl ((exists_mem_set hp h).elim id fun htask => ⟨_, mem_set_self hp, htask⟩)
  | drift hm hprocs => exact .inl (hprocs ▸ h)

end Effect
