/-!
# Interactive programs

A service function awaits one database or provider operation after another. `Prog` is the tree of
those awaits: each node performs one operation and continues on its answer, which may be an error.

* `Prog.bind`, `Prog.tryCatch` : sequencing and error handling
* `History` : the operations already performed, the newest first
* `Prog.Ran` : a program ran to its end by these operations
* `Prog.Along` : a triple over histories — every operation is justified by what was seen before it
* `Prog.Gives` : a triple that asks something of what the program gives only
-/

set_option autoImplicit false

namespace Effect

/-- A program over operations `Op` with answers `Ans` and errors `Err`: a result, or one operation
and a continuation on its answer. -/
inductive Prog {Op : Type} (Ans : Op → Type) (Err : Type) (α : Type) : Type where
  | done (r : Except Err α)
  | call (op : Op) (k : Except Err (Ans op) → Prog Ans Err α)

variable {Op : Type} {Ans : Op → Type} {Err : Type} {α β γ : Type}

namespace Prog

/-- Sequencing; an error skips the continuation. -/
def bind : Prog Ans Err α → (α → Prog Ans Err β) → Prog Ans Err β
  | .done (.ok a), f => f a
  | .done (.error e), _ => .done (.error e)
  | .call op k, f => .call op fun r => (k r).bind f

/-- Run `p`, and `handler` on the error it ends with. -/
def tryCatch : Prog Ans Err α → (Err → Prog Ans Err α) → Prog Ans Err α
  | .done (.ok a), _ => .done (.ok a)
  | .done (.error e), handler => handler e
  | .call op k, handler => .call op fun r => (k r).tryCatch handler

/-- Perform one operation and return its answer. -/
def perform (op : Op) : Prog Ans Err (Ans op) := .call op .done

/-- End with an error. -/
def throw (e : Err) : Prog Ans Err α := .done (.error e)

instance : Monad (Prog Ans Err) where
  pure a := .done (.ok a)
  bind := bind

@[simp] theorem pure_eq (a : α) : (pure a : Prog Ans Err α) = .done (.ok a) := rfl

@[simp] theorem bind_ok (a : α) (f : α → Prog Ans Err β) : (done (.ok a) >>= f) = f a := rfl

@[simp] theorem bind_error (e : Err) (f : α → Prog Ans Err β) :
    ((done (.error e) : Prog Ans Err α) >>= f) = done (.error e) := rfl

@[simp] theorem bind_call (op : Op) (k : Except Err (Ans op) → Prog Ans Err α)
    (f : α → Prog Ans Err β) : (call op k >>= f) = call op fun r => k r >>= f := rfl

@[simp] theorem throw_bind (e : Err) (f : α → Prog Ans Err β) :
    ((throw e : Prog Ans Err α) >>= f) = throw e := rfl

@[simp] theorem map_eq (g : α → β) (p : Prog Ans Err α) :
    g <$> p = p >>= fun a => done (.ok (g a)) := rfl

end Prog

/-- One performed operation and its answer. -/
structure Event {Op : Type} (Ans : Op → Type) (Err : Type) where
  op : Op
  ans : Except Err (Ans op)

/-- The operations performed so far, the newest first. -/
abbrev History {Op : Type} (Ans : Op → Type) (Err : Type) := List (Event Ans Err)

/-- The program performed just these operations and ended with this result. -/
inductive Prog.Ran : Prog Ans Err α → History Ans Err → Except Err α → Prop
  | done (r : Except Err α) : Ran (.done r) [] r
  | call {op : Op} {k : Except Err (Ans op) → Prog Ans Err α} {a : Except Err (Ans op)}
      {h : History Ans Err} {r : Except Err α} (rest : Ran (k a) h r) :
      Ran (.call op k) (h ++ [⟨op, a⟩]) r

/-! ## Triples over histories -/

/-- From history `h`, every operation of the program satisfies `J` at the history it is performed
in, whatever possible answers (`P`) it gets, and the result satisfies `Q`. -/
def Prog.Along (P : Event Ans Err → Prop) (J : History Ans Err → Op → Prop)
    (Q : Except Err α → History Ans Err → Prop) : Prog Ans Err α → History Ans Err → Prop
  | .done r, h => Q r h
  | .call op k, h => J h op ∧ ∀ a, P ⟨op, a⟩ → Along P J Q (k a) (⟨op, a⟩ :: h)

section Along

variable {P : Event Ans Err → Prop} {J : History Ans Err → Op → Prop} {h : History Ans Err}
  {Q Q' : Except Err α → History Ans Err → Prop} {R : Except Err β → History Ans Err → Prop}

@[simp] theorem along_done (r : Except Err α) : (Prog.done r).Along P J Q h ↔ Q r h := Iff.rfl

theorem along_call (op : Op) (k : Except Err (Ans op) → Prog Ans Err α) :
    (Prog.call op k).Along P J Q h ↔
      J h op ∧ ∀ a, P ⟨op, a⟩ → (k a).Along P J Q (⟨op, a⟩ :: h) := Iff.rfl

@[simp] theorem along_throw (e : Err) :
    (Prog.throw e : Prog Ans Err α).Along P J Q h ↔ Q (.error e) h := Iff.rfl

theorem Prog.Along.mono {p : Prog Ans Err α} (hp : p.Along P J Q h)
    (hQ : ∀ r h', Q r h' → Q' r h') : p.Along P J Q' h := by
  induction p generalizing h with
  | done r => exact hQ r h hp
  | call op k ih => exact ⟨hp.1, fun a ha => ih a (hp.2 a ha)⟩

/-- A weaker promise. -/
theorem Prog.Along.weaken {J' : History Ans Err → Op → Prop} {p : Prog Ans Err α}
    (hp : p.Along P J Q h) (hJ : ∀ h op, J h op → J' h op) : p.Along P J' Q h := by
  induction p generalizing h with
  | done r => exact hp
  | call op k ih => exact ⟨hJ h op hp.1, fun a ha => ih a (hp.2 a ha)⟩

/-- The postcondition a sequenced program needs of its first part. -/
def Prog.Then (P : Event Ans Err → Prop) (J : History Ans Err → Op → Prop)
    (R : Except Err β → History Ans Err → Prop) (f : α → Prog Ans Err β) :
    Except Err α → History Ans Err → Prop
  | .ok a, h => (f a).Along P J R h
  | .error e, h => R (.error e) h

@[simp] theorem then_ok (f : α → Prog Ans Err β) (a : α) :
    Prog.Then P J R f (.ok a) h ↔ (f a).Along P J R h := Iff.rfl

@[simp] theorem then_error (f : α → Prog Ans Err β) (e : Err) :
    Prog.Then P J R f (.error e) h ↔ R (.error e) h := Iff.rfl

/-- **Sequencing.** -/
theorem along_bind (p : Prog Ans Err α) (f : α → Prog Ans Err β) :
    (p >>= f).Along P J R h ↔ p.Along P J (Prog.Then P J R f) h := by
  induction p generalizing h with
  | done r => cases r <;> rfl
  | call op k ih =>
      simp only [Prog.bind_call, along_call]
      exact and_congr Iff.rfl (forall_congr' fun a => imp_congr Iff.rfl (ih a))

/-- The postcondition a protected program needs. -/
def Prog.Rescue (P : Event Ans Err → Prop) (J : History Ans Err → Op → Prop)
    (Q : Except Err α → History Ans Err → Prop) (handler : Err → Prog Ans Err α) :
    Except Err α → History Ans Err → Prop
  | .ok a, h => Q (.ok a) h
  | .error e, h => (handler e).Along P J Q h

@[simp] theorem rescue_ok (handler : Err → Prog Ans Err α) (a : α) :
    Prog.Rescue P J Q handler (.ok a) h ↔ Q (.ok a) h := Iff.rfl

@[simp] theorem rescue_error (handler : Err → Prog Ans Err α) (e : Err) :
    Prog.Rescue P J Q handler (.error e) h ↔ (handler e).Along P J Q h := Iff.rfl

/-- **Error handling.** -/
theorem along_tryCatch (p : Prog Ans Err α) (handler : Err → Prog Ans Err α) :
    (p.tryCatch handler).Along P J Q h ↔ p.Along P J (Prog.Rescue P J Q handler) h := by
  induction p generalizing h with
  | done r => cases r <;> rfl
  | call op k ih =>
      simp only [Prog.tryCatch, along_call]
      exact and_congr Iff.rfl (forall_congr' fun a => imp_congr Iff.rfl (ih a))

/-- One operation: justified, and then its errors and its answers. -/
theorem along_perform (op : Op) (Q : Except Err (Ans op) → History Ans Err → Prop) :
    (Prog.perform op).Along P J Q h ↔
      J h op ∧ (∀ e, P ⟨op, .error e⟩ → Q (.error e) (⟨op, .error e⟩ :: h)) ∧
        ∀ a, P ⟨op, .ok a⟩ → Q (.ok a) (⟨op, .ok a⟩ :: h) := by
  refine and_congr Iff.rfl ⟨fun hall => ⟨fun e => hall (.error e), fun a => hall (.ok a)⟩, ?_⟩
  rintro ⟨herr, hok⟩ (e | a)
  · exact herr e
  · exact hok a

/-- **Sequencing after one operation.** -/
theorem along_perform_bind (op : Op) (f : Ans op → Prog Ans Err β) :
    (Prog.perform op >>= f).Along P J R h ↔
      J h op ∧ (∀ e, P ⟨op, .error e⟩ → R (.error e) (⟨op, .error e⟩ :: h)) ∧
        ∀ a, P ⟨op, .ok a⟩ → (f a).Along P J R (⟨op, .ok a⟩ :: h) := by
  rw [along_bind, along_perform]
  simp only [then_ok, then_error]

end Along

/-! ## What a program gives -/

section Gives

variable {P : Event Ans Err → Prop} {J : History Ans Err → Op → Prop} {h : History Ans Err}
  {R R' : α → History Ans Err → Prop} {S : β → History Ans Err → Prop}

/-- A program only extends the history. -/
theorem Prog.Along.extends {Q : Except Err α → History Ans Err → Prop} {p : Prog Ans Err α}
    (hp : p.Along P J Q h) : p.Along P J (fun r h' => Q r h' ∧ h <:+ h') h := by
  induction p generalizing h with
  | done r => exact ⟨hp, List.suffix_refl h⟩
  | call op k ih =>
      refine ⟨hp.1, fun a ha => (ih a (hp.2 a ha)).mono fun r h' hr => ⟨hr.1, ?_⟩⟩
      exact (List.suffix_cons _ h).trans hr.2

/-- Operations need to be justified only where the history extends that at the start. -/
theorem Prog.Along.onward {Q : Except Err α → History Ans Err → Prop} {p : Prog Ans Err α}
    (hp : p.Along P (fun h' op => h <:+ h' → J h' op) Q h) : p.Along P J Q h := by
  have hfrom : ∀ {h' : History Ans Err}, h <:+ h' →
      p.Along P (fun h' op => h <:+ h' → J h' op) Q h' → p.Along P J Q h' := by
    clear hp
    induction p with
    | done r => exact fun _ hp => hp
    | call op k ih =>
        exact fun hs hp => ⟨hp.1 hs, fun a ha => ih a (hs.trans (List.suffix_cons _ _)) (hp.2 a ha)⟩
  exact hfrom (List.suffix_refl h) hp

/-- The program keeps to what is justified, and what it gives satisfies `R`. -/
abbrev Prog.Gives (P : Event Ans Err → Prop) (J : History Ans Err → Op → Prop)
    (R : α → History Ans Err → Prop) (p : Prog Ans Err α) (h : History Ans Err) : Prop :=
  p.Along P J (fun r h' => ∀ a, r = .ok a → R a h') h

theorem gives_pure {a : α} (hr : R a h) : (pure a : Prog Ans Err α).Gives P J R h := by
  rintro _ ⟨⟩
  exact hr

theorem gives_throw (e : Err) : (Prog.throw e : Prog Ans Err α).Gives P J R h :=
  fun _ ha => by cases ha

theorem gives_bind {p : Prog Ans Err α} {f : α → Prog Ans Err β} (hp : p.Gives P J R h)
    (hf : ∀ a h', h <:+ h' → R a h' → (f a).Gives P J S h') : (p >>= f).Gives P J S h := by
  rw [Prog.Gives, along_bind]
  refine hp.extends.mono fun r h' hr => ?_
  cases r with
  | ok a => exact hf a h' hr.2 (hr.1 a rfl)
  | error e => exact fun _ ha => by cases ha

theorem gives_tryCatch {p : Prog Ans Err α} {handler : Err → Prog Ans Err α} (hp : p.Gives P J R h)
    (hh : ∀ e h', (handler e).Gives P J R h') : (p.tryCatch handler).Gives P J R h := by
  rw [Prog.Gives, along_tryCatch]
  refine Prog.Along.mono hp fun r h' hr => ?_
  cases r with
  | ok a => exact hr
  | error e => exact hh e h'

theorem gives_map {p : Prog Ans Err α} {f : α → β} (hp : p.Gives P J (fun a h' => S (f a) h') h) :
    (f <$> p).Gives P J S h := by
  rw [Prog.map_eq]
  exact gives_bind hp fun a _ _ hs => gives_pure hs

theorem Prog.Gives.weaken {p : Prog Ans Err α} (hp : p.Gives P J R h)
    (hR : ∀ a h', h <:+ h' → R a h' → R' a h') : p.Gives P J R' h :=
  hp.extends.mono fun _ h' hr a ha => hR a h' hr.2 (hr.1 a ha)

/-- One operation. -/
theorem gives_perform (op : Op) {R : Ans op → History Ans Err → Prop} (hjust : J h op)
    (hR : ∀ a, P ⟨op, .ok a⟩ → R a (⟨op, .ok a⟩ :: h)) : (Prog.perform op).Gives P J R h := by
  refine ⟨hjust, fun a hP => ?_⟩
  cases a with
  | error e => exact fun _ ha => by cases ha
  | ok a =>
      rintro _ ⟨⟩
      exact hR a hP

end Gives

/-! ## Programs of harmless operations -/

/-- Every operation the program may perform satisfies `A`. -/
def Prog.Uses (A : Op → Prop) : Prog Ans Err α → Prop
  | .done _ => True
  | .call op k => A op ∧ ∀ a, Uses A (k a)

@[simp] theorem uses_done {A : Op → Prop} (r : Except Err α) :
    (Prog.done r : Prog Ans Err α).Uses A := trivial

@[simp] theorem uses_throw {A : Op → Prop} (e : Err) :
    (Prog.throw e : Prog Ans Err α).Uses A := trivial

theorem Prog.Uses.mono {A B : Op → Prop} {p : Prog Ans Err α} (hp : p.Uses A)
    (hAB : ∀ op, A op → B op) : p.Uses B := by
  induction p with
  | done r => trivial
  | call op k ih => exact ⟨hAB op hp.1, fun a => ih a (hp.2 a)⟩

/-- Every program uses operations. -/
theorem uses_any (p : Prog Ans Err α) : p.Uses fun _ => True := by
  induction p with
  | done r => trivial
  | call op k ih => exact ⟨trivial, fun a => ih a⟩

theorem uses_perform {A : Op → Prop} {op : Op} (h : A op) :
    (Prog.perform op : Prog Ans Err (Ans op)).Uses A := ⟨h, fun _ => trivial⟩

theorem uses_bind {A : Op → Prop} {p : Prog Ans Err α} {f : α → Prog Ans Err β} (hp : p.Uses A)
    (hf : ∀ a, (f a).Uses A) : (p >>= f).Uses A := by
  induction p with
  | done r => cases r with
    | ok a => exact hf a
    | error e => trivial
  | call op k ih => exact ⟨hp.1, fun a => ih a (hp.2 a)⟩

theorem uses_tryCatch {A : Op → Prop} {p : Prog Ans Err α} {handler : Err → Prog Ans Err α}
    (hp : p.Uses A) (hh : ∀ e, (handler e).Uses A) : (p.tryCatch handler).Uses A := by
  induction p with
  | done r => cases r with
    | ok a => trivial
    | error e => exact hh e
  | call op k ih => exact ⟨hp.1, fun a => ih a (hp.2 a)⟩

/-- **Harmless programs.** Operations justified whatever happened before only extend the history,
by operations of their kind. -/
theorem Prog.Uses.along {A : Op → Prop} {P : Event Ans Err → Prop}
    {J : History Ans Err → Op → Prop} {Q : Except Err α → History Ans Err → Prop}
    {p : Prog Ans Err α} {h : History Ans Err} (hp : p.Uses A) (hJ : ∀ h op, A op → J h op)
    (hQ : ∀ r l, (∀ e ∈ l, A e.op) → Q r (l ++ h)) : p.Along P J Q h := by
  induction p generalizing h with
  | done r => exact hQ r [] fun _ he => absurd he List.not_mem_nil
  | call op k ih =>
      refine ⟨hJ h op hp.1, fun a _ => ih a (hp.2 a) fun r l hl => ?_⟩
      have hcons := hQ r (l ++ [⟨op, a⟩]) fun e he => by
        rcases List.mem_append.mp he with he | he
        · exact hl e he
        · rw [List.mem_singleton.mp he]; exact hp.1
      rwa [List.append_assoc] at hcons

/-- Operations justified from some history on. -/
theorem Prog.Uses.along_from {A : Op → Prop} {P : Event Ans Err → Prop}
    {J : History Ans Err → Op → Prop} {p : Prog Ans Err α} {h : History Ans Err} (hp : p.Uses A)
    (hJ : ∀ h', h <:+ h' → ∀ op, A op → J h' op) :
    p.Along P J (fun _ h' => h <:+ h') h := by
  induction p generalizing h with
  | done r => exact List.suffix_refl h
  | call op k ih =>
      refine ⟨hJ h (List.suffix_refl h) op hp.1, fun a _ => ?_⟩
      have hcons : h <:+ ⟨op, a⟩ :: h := List.suffix_cons _ h
      exact (ih a (hp.2 a) fun h' hh' => hJ h' (hcons.trans hh')).mono fun r h' => hcons.trans

/-- A program with a postcondition whose operations are also harmless promises that they are. -/
theorem Prog.Along.uses {A : Op → Prop} {P : Event Ans Err → Prop}
    {J J' : History Ans Err → Op → Prop} {Q : Except Err α → History Ans Err → Prop}
    {p : Prog Ans Err α} {h : History Ans Err} (hp : p.Along P J Q h) (hu : p.Uses A)
    (hA : ∀ h op, J h op → A op → J' h op) : p.Along P J' Q h := by
  induction p generalizing h with
  | done r => exact hp
  | call op k ih => exact ⟨hA h op hp.1 hu.1, fun a ha => ih a (hp.2 a ha) (hu.2 a)⟩

end Effect
