import Mathlib.Data.List.Basic

/-!
# Job queues

A queue of jobs with keys. A worker takes a waiting job and holds it until it completes or fails it, or
until the queue finds that the worker is gone. Failed jobs are kept, and adding a key that is there does
nothing.

* `Job`, `Queue` : the jobs, and how often each was tried
* `Queue.add`, `Queue.take`, `Queue.complete`, `Queue.fail`, `Queue.stall` : the operations
* `Queue.Live`, `Queue.Dead` : a key whose job will be tried again, and one whose job was given up
* `Queue.givesUp`, `Queue.stallsOut` : the operation gives a job up
* `Queue.Has` : a key that has a job
-/

set_option autoImplicit false

namespace Effect

/-- What a job waits for. -/
inductive JobStatus
  | waiting | active | failed
deriving DecidableEq, Repr

/-- A job; a completed one is removed. `starts` counts how often a worker took it, `stalls` how often one
lost it. -/
structure Job (K : Type) where
  key : K
  status : JobStatus
  attemptsMade : Nat := 0
  starts : Nat := 0
  stalls : Nat := 0
deriving DecidableEq

/-- The jobs of a queue, in the order they were added. -/
abbrev Queue (K : Type) := List (Job K)

namespace Queue

variable {K : Type} [DecidableEq K]

/-- Ignored while a job with the key exists, a failed one included. -/
def add (k : K) (q : Queue K) : Queue K :=
  if q.any fun j => j.key == k then q else q ++ [{ key := k, status := .waiting }]

/-- Change the job with this key. -/
def modify (k : K) (f : Job K → Job K) (q : Queue K) : Queue K :=
  q.map fun j => if j.key = k then f j else j

/-- A worker takes a waiting job. -/
def take (k : K) (q : Queue K) : Option (Nat × Queue K) :=
  (q.find? fun j => j.key == k && j.status == .waiting).map fun j =>
    (j.starts + 1, q.modify k fun j => { j with status := .active, starts := j.starts + 1 })

/-- The worker that started the job with this number holds it. -/
def holds (k : K) (start : Nat) (q : Queue K) : Bool :=
  q.any fun j => j.key == k && j.status == .active && j.starts == start

/-- The worker completes its job; none when it lost it. -/
def complete (k : K) (start : Nat) (q : Queue K) : Option (Queue K) :=
  if q.holds k start then some (q.filter fun j => j.key ≠ k) else none

/-- A failed attempt is repeated until the attempts are used up; none when the worker lost the job. -/
def fail (attempts : Nat) (k : K) (start : Nat) (q : Queue K) : Option (Queue K) :=
  if q.holds k start then
    some (q.modify k fun j =>
      { j with
        status := if j.attemptsMade + 1 < attempts then .waiting else .failed
        attemptsMade := j.attemptsMade + 1 })
  else none

/-- The queue finds that the worker of an active job is gone. -/
def stall (limit : Nat) (k : K) (q : Queue K) : Queue K :=
  q.modify k fun j =>
    if j.status = .active then
      { j with status := if j.stalls < limit then .waiting else .failed, stalls := j.stalls + 1 }
    else j

/-- The job with this key will be tried, or is being tried. -/
def Live (q : Queue K) (k : K) : Prop := ∃ j ∈ q, j.key = k ∧ j.status ≠ .failed

/-- The job with this key was given up, and is kept. -/
def Dead (q : Queue K) (k : K) : Prop := ∃ j ∈ q, j.key = k ∧ j.status = .failed

instance (q : Queue K) (k : K) : Decidable (q.Live k) :=
  inferInstanceAs (Decidable (∃ j ∈ q, j.key = k ∧ j.status ≠ .failed))

/-- A failure that gives the job up. -/
def givesUp (attempts : Nat) (k : K) (start : Nat) (q : Queue K) : Bool :=
  q.holds k start && q.any fun j => j.key == k && !decide (j.attemptsMade + 1 < attempts)

/-- A stall that gives the job up. -/
def stallsOut (limit : Nat) (k : K) (q : Queue K) : Bool :=
  q.any fun j => j.key == k && j.status == .active && !decide (j.stalls < limit)

variable {q q' : Queue K} {k k' : K} {start n attempts limit : Nat}

/-! ## What an operation does to a job -/

theorem mem_modify {f : Job K → Job K} {j : Job K} :
    j ∈ q.modify k f ↔ ∃ i ∈ q, (if i.key = k then f i else i) = j := List.mem_map

theorem live_modify {f : Job K → Job K} (hf : ∀ j, (f j).key = j.key)
    (hlive : ∀ j ∈ q, j.key = k → j.key = k' → j.status ≠ .failed → (f j).status ≠ .failed)
    (h : q.Live k') : (q.modify k f).Live k' := by
  obtain ⟨j, hj, hk, hst⟩ := h
  refine ⟨if j.key = k then f j else j, mem_modify.mpr ⟨j, hj, rfl⟩, ?_⟩
  split
  · rename_i heq
    exact ⟨(hf j).trans hk, hlive j hj heq hk hst⟩
  · exact ⟨hk, hst⟩

theorem dead_modify {f : Job K → Job K} (hf : ∀ j, (f j).key = j.key) (h : (q.modify k f).Dead k') :
    q.Dead k' ∨ k' = k ∧ ∃ j ∈ q, j.key = k ∧ j.status ≠ .failed ∧ (f j).status = .failed := by
  obtain ⟨j, hj, hk, hst⟩ := h
  obtain ⟨i, hi, rfl⟩ := mem_modify.mp hj
  split at hst
  · rename_i heq
    rw [if_pos heq, hf] at hk
    by_cases hi' : i.status = .failed
    · exact .inl ⟨i, hi, hk, hi'⟩
    · exact .inr ⟨hk.symm.trans heq, i, hi, heq, hi', hst⟩
  · rename_i hne
    rw [if_neg hne] at hk
    exact .inl ⟨i, hi, hk, hst⟩

/-- **An added key is live,** unless its job was given up. -/
theorem live_or_dead_add (k : K) (q : Queue K) : (q.add k).Live k ∨ q.Dead k := by
  unfold add
  split
  · rename_i hany
    obtain ⟨j, hj, hkey⟩ := List.any_eq_true.mp hany
    by_cases hst : j.status = .failed
    · exact .inr ⟨j, hj, beq_iff_eq.mp hkey, hst⟩
    · exact .inl ⟨j, hj, beq_iff_eq.mp hkey, hst⟩
  · exact .inl ⟨_, List.mem_append_right _ List.mem_cons_self, rfl, JobStatus.noConfusion⟩

theorem live_add (h : q.Live k') : (q.add k).Live k' := by
  obtain ⟨j, hj, hlive⟩ := h
  unfold add
  split
  · exact ⟨j, hj, hlive⟩
  · exact ⟨j, List.mem_append_left _ hj, hlive⟩

theorem dead_add (h : (q.add k).Dead k') : q.Dead k' := by
  obtain ⟨j, hj, hk, hst⟩ := h
  unfold add at hj
  split at hj
  · exact ⟨j, hj, hk, hst⟩
  · rcases List.mem_append.mp hj with hj | hj
    · exact ⟨j, hj, hk, hst⟩
    · rw [List.mem_singleton.mp hj] at hst
      cases hst

theorem live_take (h : q.take k = some (n, q')) (hlive : q.Live k') : q'.Live k' := by
  obtain ⟨j, -, heq⟩ := Option.map_eq_some_iff.mp h
  obtain ⟨-, rfl⟩ := Prod.mk.inj heq
  exact live_modify (fun _ => rfl) (fun _ _ _ _ _ => JobStatus.noConfusion) hlive

theorem dead_take (h : q.take k = some (n, q')) (hdead : q'.Dead k') : q.Dead k' := by
  obtain ⟨j, -, heq⟩ := Option.map_eq_some_iff.mp h
  obtain ⟨-, rfl⟩ := Prod.mk.inj heq
  exact (dead_modify (fun _ => by rfl) hdead).resolve_right fun ⟨_, _, _, _, _, hst⟩ => by cases hst

/-- Taking a job counts no attempt. -/
theorem attempts_take (h : q.take k = some (n, q')) {j : Job K} (hj : j ∈ q') :
    ∃ i ∈ q, i.key = j.key ∧ i.attemptsMade = j.attemptsMade := by
  obtain ⟨_, -, heq⟩ := Option.map_eq_some_iff.mp h
  obtain ⟨-, rfl⟩ := Prod.mk.inj heq
  obtain ⟨i, hi, rfl⟩ := mem_modify.mp hj
  exact ⟨i, hi, by split <;> rfl, by split <;> rfl⟩

/-- Completing a job leaves the others. -/
theorem live_complete (h : q.complete k start = some q') (hne : k' ≠ k) (hlive : q.Live k') :
    q'.Live k' := by
  unfold complete at h
  split at h
  · cases h
    obtain ⟨j, hj, hk, hst⟩ := hlive
    exact ⟨j, List.mem_filter.mpr ⟨hj, by simp [hk, hne]⟩, hk, hst⟩
  · cases h

theorem dead_complete (h : q.complete k start = some q') (hdead : q'.Dead k') : q.Dead k' := by
  unfold complete at h
  split at h
  · cases h
    obtain ⟨j, hj, hk⟩ := hdead
    exact ⟨j, (List.mem_filter.mp hj).1, hk⟩
  · cases h

/-- **A failed attempt keeps a job live,** unless it gives it up. -/
theorem live_fail (h : q.fail attempts k start = some q')
    (hkeep : k' = k → q.givesUp attempts k start = false) (hlive : q.Live k') : q'.Live k' := by
  unfold fail at h
  split at h
  · rename_i hholds
    cases h
    refine live_modify (fun _ => rfl) (fun j hj hk hk' _ => ?_) hlive
    have hgive := hkeep (hk'.symm.trans hk)
    rw [givesUp, hholds, Bool.true_and] at hgive
    have hlt : j.attemptsMade + 1 < attempts := by simpa [hk] using List.any_eq_false.mp hgive j hj
    simp [hlt]
  · cases h

theorem dead_fail (h : q.fail attempts k start = some q') (hdead : q'.Dead k') :
    q.Dead k' ∨ k' = k ∧ q.givesUp attempts k start = true := by
  unfold fail at h
  split at h
  · rename_i hholds
    cases h
    refine (dead_modify (fun _ => by rfl) hdead).imp_right fun ⟨heq, j, hj, hk, _, hst⟩ => ⟨heq, ?_⟩
    rw [givesUp, hholds, Bool.true_and]
    refine List.any_eq_true.mpr ⟨j, hj, ?_⟩
    by_cases hlt : j.attemptsMade + 1 < attempts
    · simp [hlt] at hst
    · simp [hk, hlt]
  · cases h

/-- **A stall keeps a job live,** unless it gives it up. -/
theorem live_stall (hkeep : k' = k → q.stallsOut limit k = false) (hlive : q.Live k') :
    (q.stall limit k).Live k' := by
  refine live_modify (fun j => by split <;> rfl) (fun j hj hk hk' hst => ?_) hlive
  split
  · rename_i hactive
    have hlt : j.stalls < limit := by
      simpa [hk, hactive] using List.any_eq_false.mp (hkeep (hk'.symm.trans hk)) j hj
    simp [hlt]
  · exact hst

theorem dead_stall (hdead : (q.stall limit k).Dead k') :
    q.Dead k' ∨ k' = k ∧ q.stallsOut limit k = true := by
  refine (dead_modify (fun j => by split <;> rfl) hdead).imp_right
    fun ⟨heq, j, hj, hk, hlive, hst⟩ => ⟨heq, List.any_eq_true.mpr ⟨j, hj, ?_⟩⟩
  split at hst
  · rename_i hactive
    by_cases hlt : j.stalls < limit
    · simp [hlt] at hst
    · simp [hk, hactive, hlt]
  · exact absurd hst hlive

/-! ## Which keys have a job -/

/-- There is a job with this key. -/
def Has (q : Queue K) (k : K) : Prop := ∃ j ∈ q, j.key = k

omit [DecidableEq K] in
theorem Dead.has (h : q.Dead k) : q.Has k := by
  obtain ⟨j, hj, hk, -⟩ := h
  exact ⟨j, hj, hk⟩

theorem has_modify {f : Job K → Job K} (hf : ∀ j, (f j).key = j.key) (h : (q.modify k f).Has k') :
    q.Has k' := by
  obtain ⟨j, hj, hk⟩ := h
  obtain ⟨i, hi, rfl⟩ := mem_modify.mp hj
  refine ⟨i, hi, ?_⟩
  split at hk
  · exact (hf i).symm.trans hk
  · exact hk

theorem has_add (h : (q.add k).Has k') : q.Has k' ∨ k' = k := by
  obtain ⟨j, hj, hk⟩ := h
  unfold add at hj
  split at hj
  · exact .inl ⟨j, hj, hk⟩
  · rcases List.mem_append.mp hj with hj | hj
    · exact .inl ⟨j, hj, hk⟩
    · rw [List.mem_singleton.mp hj] at hk
      exact .inr hk.symm

theorem has_take (h : q.take k = some (n, q')) (hhas : q'.Has k') : q.Has k' := by
  obtain ⟨j, -, heq⟩ := Option.map_eq_some_iff.mp h
  obtain ⟨-, rfl⟩ := Prod.mk.inj heq
  exact has_modify (fun _ => by rfl) hhas

/-- A job that is taken is there. -/
theorem has_of_take (h : q.take k = some (n, q')) : q.Has k := by
  obtain ⟨j, hfind, -⟩ := Option.map_eq_some_iff.mp h
  have hsel := List.find?_some hfind
  exact ⟨j, List.mem_of_find?_eq_some hfind, beq_iff_eq.mp (Bool.and_eq_true_iff.mp hsel).1⟩

theorem has_complete (h : q.complete k start = some q') (hhas : q'.Has k') : q.Has k' := by
  unfold complete at h
  split at h
  · cases h
    obtain ⟨j, hj, hk⟩ := hhas
    exact ⟨j, (List.mem_filter.mp hj).1, hk⟩
  · cases h

theorem has_fail (h : q.fail attempts k start = some q') (hhas : q'.Has k') : q.Has k' := by
  unfold fail at h
  split at h
  · cases h
    exact has_modify (fun _ => by rfl) hhas
  · cases h

theorem has_stall (hhas : (q.stall limit k).Has k') : q.Has k' :=
  has_modify (fun j => by split <;> rfl) hhas

end Queue

end Effect
