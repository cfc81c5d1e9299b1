import Mathlib.Data.List.Nodup
import Mathlib.Algebra.BigOperators.Group.List.Basic
import Mathlib.Algebra.GroupWithZero.Nat

/-!
# A queue swept in pages

A sweep takes the first `N` entries of a queue. Some of them leave it, the others stick where they
are: in front, for the next sweep to take again.

* `Swept` : sweeps one after the other, with their pages and what stuck of each
* **`Swept.all_paged_iff`** : the next page completes the queue just when nothing is behind it
* **`Swept.length_add`** : how long the queue still is
-/

set_option autoImplicit false

namespace Effect

variable {α : Type} {N : Nat} {l m : List α} {pages : List (List α × List α)}

/-- From the queue `l` these pages were taken, of which the second lists stuck, and `m` is left. -/
inductive Swept (N : Nat) (l : List α) : List (List α × List α) → List α → Prop
  | nil : Swept N l [] l
  | snoc {pages : List (List α × List α)} {m stuck : List α} (before : Swept N l pages m)
      (sticks : stuck.Sublist (m.take N)) :
      Swept N l (pages ++ [(m.take N, stuck)]) (stuck ++ m.drop N)

theorem Swept.sublist (h : Swept N l pages m) : m.Sublist l := by
  induction h with
  | nil => exact List.Sublist.refl l
  | @snoc _ m stuck _ sticks ih =>
      have hm : (stuck ++ m.drop N).Sublist (m.take N ++ m.drop N) :=
        sticks.append (List.Sublist.refl _)
      rw [List.take_append_drop] at hm
      exact hm.trans ih

/-- An entry of the queue was taken, or is left. -/
theorem Swept.mem_cases (h : Swept N l pages m) {x : α} (hx : x ∈ l) :
    x ∈ m ∨ ∃ page ∈ pages, x ∈ page.1 := by
  induction h with
  | nil => exact .inl hx
  | @snoc pages m stuck _ _ ih =>
      rcases ih with hm | ⟨page, hpage, hmem⟩
      · rw [← List.take_append_drop N m, List.mem_append] at hm
        rcases hm with htake | hdrop
        · exact .inr ⟨_, List.mem_append_right _ (List.mem_singleton_self _), htake⟩
        · exact .inl (List.mem_append_right _ hdrop)
      · exact .inr ⟨page, List.mem_append_left _ hpage, hmem⟩

/-- What lies behind the next page was in no page before. -/
theorem Swept.not_paged (h : Swept N l pages m) (hl : l.Nodup) :
    ∀ x ∈ m.drop N, ∀ page ∈ pages, x ∉ page.1 := by
  induction h with
  | nil => exact fun _ _ _ hpage => absurd hpage List.not_mem_nil
  | @snoc pages m stuck before sticks ih =>
      have hshort : stuck.length ≤ N :=
        Nat.le_trans sticks.length_le (List.length_take_le N m)
      intro x hx page hpage
      have hdrop : x ∈ m.drop N := by
        rw [List.drop_append, List.drop_eq_nil_of_le hshort, List.nil_append] at hx
        exact List.mem_of_mem_drop hx
      rcases List.mem_append.mp hpage with hpage | hpage
      · exact ih x hdrop page hpage
      · rw [List.mem_singleton.mp hpage]
        exact fun htake =>
          List.disjoint_take_drop (hl.sublist before.sublist) (Nat.le_refl N) htake hdrop

/-- **The next page completes the queue just when nothing is behind it.** -/
theorem Swept.all_paged_iff (h : Swept N l pages m) (hl : l.Nodup) :
    (∀ x ∈ l, x ∈ m.take N ∨ ∃ page ∈ pages, x ∈ page.1) ↔ m.length ≤ N := by
  constructor
  · intro hall
    by_contra hlong
    have hdrop : m.drop N ≠ [] := fun heq => hlong (List.drop_eq_nil_iff.mp heq)
    obtain ⟨x, hx⟩ := List.exists_mem_of_ne_nil _ hdrop
    rcases hall x (h.sublist.subset (List.mem_of_mem_drop hx)) with htake | ⟨page, hpage, hmem⟩
    · exact List.disjoint_take_drop (hl.sublist h.sublist) (Nat.le_refl N) htake hx
    · exact h.not_paged hl x hx page hpage hmem
  · intro hshort x hx
    refine (h.mem_cases hx).imp (fun hm => ?_) id
    rwa [List.take_of_length_le hshort]

/-- **How long the queue still is,** while all pages were full: what stuck makes up the difference. -/
theorem Swept.length_add (h : Swept N l pages m) (hfull : N * pages.length ≤ l.length) :
    m.length + N * pages.length = l.length + (pages.map fun page => page.2.length).sum := by
  induction h with
  | nil => simp
  | @snoc pages m stuck before sticks ih =>
      have hcount : N * (pages ++ [(m.take N, stuck)]).length = N * pages.length + N := by
        rw [List.length_append, List.length_singleton, Nat.mul_add, Nat.mul_one]
      rw [hcount] at hfull ⊢
      have hlen := ih (by omega)
      rw [List.map_append, List.sum_append, List.map_singleton, List.sum_singleton,
        List.length_append, List.length_drop]
      dsimp only
      omega

/-- While fewer pages were taken than fill the queue, the next one is full. -/
theorem Swept.page_full (h : Swept N l pages m) (hmore : N * (pages.length + 1) ≤ l.length) :
    N ≤ m.length := by
  rw [Nat.mul_add, Nat.mul_one] at hmore
  have hlen := h.length_add (by omega)
  omega

end Effect
