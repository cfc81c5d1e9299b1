/-!
# Walks of a transition system

* `Edge`, `Walk` : a step with its label; steps that follow one another
* **`Walk.balance`** : how often a region is entered and left
* `Walk.enters` : a walk into a region, from its last entry on
-/

set_option autoImplicit false

namespace Effect

/-- A step: where from, by what, where to. -/
structure Edge (S L : Type) where
  src : S
  label : L
  dst : S

variable {S L : Type} {E : Edge S L → Prop} {A : S → Bool} {s s' : S} {es : List (Edge S L)}

/-- Steps of the system, each from where the last one led. -/
inductive Walk (E : Edge S L → Prop) : S → List (Edge S L) → S → Prop
  | nil (s : S) : Walk E s [] s
  | snoc {s : S} {es : List (Edge S L)} {e : Edge S L} (before : Walk E s es e.src) (step : E e) :
      Walk E s (es ++ [e]) e.dst

theorem Walk.mem (h : Walk E s es s') : ∀ e ∈ es, E e := by
  induction h with
  | nil => exact fun _ he => absurd he List.not_mem_nil
  | snoc _ step ih =>
      intro e he
      rcases List.mem_append.mp he with he | he
      · exact ih e he
      · rw [List.mem_singleton.mp he]
        exact step

/-- The step leads into the region. -/
def Edge.enters (A : S → Bool) (e : Edge S L) : Bool := !A e.src && A e.dst

/-- The step leads out of the region. -/
def Edge.leaves (A : S → Bool) (e : Edge S L) : Bool := A e.src && !A e.dst

/-- **Balance.** A walk enters a region as often as it leaves it, but for where it starts and ends. -/
theorem Walk.balance (A : S → Bool) (h : Walk E s es s') :
    es.countP (Edge.enters A) + (A s).toNat = es.countP (Edge.leaves A) + (A s').toNat := by
  induction h with
  | nil => rfl
  | @snoc es e before step ih =>
      rw [List.countP_append, List.countP_append, List.countP_singleton, List.countP_singleton]
      cases hsrc : A e.src <;> cases hdst : A e.dst <;>
        simp [Edge.enters, Edge.leaves, hsrc, hdst] at ih ⊢ <;> omega

/-- **A walk into a region** enters it for the last time, and then stays. -/
theorem Walk.enters (h : Walk E s es s') (hs : A s = false) (hs' : A s' = true) :
    ∃ es₁ e es₂, es = es₁ ++ e :: es₂ ∧ Walk E s es₁ e.src ∧ E e ∧ e.enters A = true ∧
      ∀ e ∈ es₂, E e ∧ A e.src = true ∧ A e.dst = true := by
  induction h with
  | nil => rw [hs] at hs'; cases hs'
  | @snoc es e before step ih =>
      cases hsrc : A e.src with
      | false =>
          refine ⟨es, e, [], rfl, before, step, ?_, fun _ h => absurd h List.not_mem_nil⟩
          simp [Edge.enters, hsrc, hs']
      | true =>
          obtain ⟨es₁, e₁, es₂, rfl, hwalk, hstep, henters, hstays⟩ := ih hsrc
          refine ⟨es₁, e₁, es₂ ++ [e], by simp, hwalk, hstep, henters, fun e' he' => ?_⟩
          rcases List.mem_append.mp he' with he' | he'
          · exact hstays e' he'
          · rw [List.mem_singleton.mp he']
            exact ⟨step, hsrc, hs'⟩

end Effect
