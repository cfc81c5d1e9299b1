import Meduman.Effect.Prog

/-!
# Backends

What awaits the operations of a service: it serves one, fails with nothing done, or carries it out
while its answer is lost.

* `Fate` : the outcome of an operation
* `Backend` : what a served operation answers and changes, and how operations fail
* `Backend.exec`, `Backend.exec_cases` : the outcomes, and what is left of them in a proof
-/

set_option autoImplicit false

namespace Effect

/-- The outcome of an operation. A served one takes from its supply what the backend makes up. -/
inductive Fate (S : Type) where
  | served (supply : S)
  | lost (supply : S) (message : String)
  | failed (message : String)
deriving DecidableEq

/-- What the backend makes up; nothing where nothing is done. -/
def Fate.supply {S : Type} : Fate S → Option S
  | served s => some s
  | lost s _ => some s
  | failed _ => none

/-- A world with operations. `fits` are the supplies an operation can meet, `writes` the operations
whose answer can be lost, `fallible` those that can fail, `fault` the error then. -/
structure Backend {Op : Type} (Ans : Op → Type) (Err World Supply : Type) where
  effect : Supply → World → (op : Op) → Except Err (Ans op) × World
  fits : Supply → World → Op → Bool
  writes : Op → Bool
  fallible : Op → Bool
  fault : String → Op → Err

variable {Op : Type} {Ans : Op → Type} {Err World Supply : Type}

namespace Backend

/-- The outcome of an operation; none when it cannot happen. -/
def exec (B : Backend Ans Err World Supply) (op : Op) (fate : Fate Supply) (w : World) :
    Option (Except Err (Ans op) × World) :=
  match fate with
  | .served s => if B.fits s w op then some (B.effect s w op) else none
  | .lost s message =>
      if B.writes op && B.fits s w op then some (.error (B.fault message op), (B.effect s w op).2)
      else none
  | .failed message => if B.fallible op then some (.error (B.fault message op), w) else none

variable {B : Backend Ans Err World Supply} {op : Op} {fate : Fate Supply} {u w : World}
  {a : Except Err (Ans op)}

/-- An operation fails with nothing done, or its effect takes place, whatever is answered. -/
theorem exec_cases (h : B.exec op fate u = some (a, w)) :
    (w = u ∧ ∃ e, a = .error e) ∨
      ∃ s, fate.supply = some s ∧ B.fits s u op = true ∧ w = (B.effect s u op).2 ∧
        (a = (B.effect s u op).1 ∨ ∃ e, a = .error e) := by
  cases fate with
  | served s =>
      simp only [exec] at h
      split at h
      · obtain ⟨rfl, rfl⟩ := Prod.ext_iff.mp (Option.some.inj h)
        exact .inr ⟨s, rfl, ‹_›, rfl, .inl rfl⟩
      · cases h
  | lost s message =>
      simp only [exec] at h
      split at h
      · rename_i hboth
        obtain ⟨rfl, rfl⟩ := Prod.ext_iff.mp (Option.some.inj h)
        exact .inr ⟨s, rfl, (Bool.and_eq_true_iff.mp hboth).2, rfl, .inr ⟨_, rfl⟩⟩
      · cases h
  | failed message =>
      simp only [exec] at h
      split at h
      · obtain ⟨rfl, rfl⟩ := Prod.ext_iff.mp (Option.some.inj h)
        exact .inl ⟨rfl, _, rfl⟩
      · cases h

/-- What is carried out has its effect. -/
theorem exec_done {s : Supply} (h : B.exec op fate u = some (a, w)) (hs : fate.supply = some s) :
    w = (B.effect s u op).2 := by
  cases fate with
  | served s' =>
      cases hs
      simp only [exec] at h
      split at h
      · exact (Prod.ext_iff.mp (Option.some.inj h)).2.symm
      · cases h
  | lost s' message =>
      cases hs
      simp only [exec] at h
      split at h
      · exact (Prod.ext_iff.mp (Option.some.inj h)).2.symm
      · cases h
  | failed message => cases hs

/-- What is served is answered. -/
theorem exec_served {s : Supply} (h : B.exec op (.served s) u = some (a, w)) :
    (a, w) = B.effect s u op := by
  simp only [exec] at h
  split at h
  · exact (Option.some.inj h).symm
  · cases h

/-- What is served meets its supply. -/
theorem exec_fits {s : Supply} (h : B.exec op (.served s) u = some (a, w)) :
    B.fits s u op = true := by
  simp only [exec] at h
  split at h
  · assumption
  · cases h

/-- What does not fail is carried out. -/
theorem exec_carried (h : B.exec op fate u = some (a, w))
    (hdone : ∀ message, fate ≠ .failed message) :
    ∃ s, fate.supply = some s ∧ B.fits s u op = true ∧ w = (B.effect s u op).2 := by
  cases fate with
  | served s => exact ⟨s, rfl, exec_fits h, exec_done h rfl⟩
  | lost s message =>
      refine ⟨s, rfl, ?_, exec_done h rfl⟩
      simp only [exec] at h
      split at h
      · rename_i hboth
        exact (Bool.and_eq_true_iff.mp hboth).2
      · cases h
  | failed message => exact absurd rfl (hdone message)

/-- An answer is the effect's. -/
theorem exec_ok {r : Ans op} (h : B.exec op fate u = some (.ok r, w)) :
    ∃ s, B.fits s u op = true ∧ B.effect s u op = (.ok r, w) := by
  rcases exec_cases h with ⟨-, e, he⟩ | ⟨s, -, hfits, hw, ha | ⟨e, he⟩⟩
  · cases he
  · exact ⟨s, hfits, Prod.ext ha.symm hw.symm⟩
  · cases he

/-- What cannot fail is served. -/
theorem exec_sure (h : B.exec op fate u = some (a, w)) (hfallible : B.fallible op = false)
    (hwrites : B.writes op = false) : ∃ s, (a, w) = B.effect s u op := by
  cases fate with
  | served s => exact ⟨s, exec_served h⟩
  | lost s message => simp [exec, hwrites] at h
  | failed message => simp [exec, hfallible] at h

/-- What every effect of an operation keeps, the operation keeps. -/
theorem exec_keeps {P : World → Prop} (h : B.exec op fate u = some (a, w)) (hu : P u)
    (heff : ∀ s, B.fits s u op = true → P (B.effect s u op).2) : P w := by
  rcases exec_cases h with ⟨rfl, -⟩ | ⟨s, -, hfits, rfl, -⟩
  · exact hu
  · exact heff s hfits

end Backend

end Effect
