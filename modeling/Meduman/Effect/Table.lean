import Mathlib.Data.List.Pairwise
import Mathlib.Logic.Function.Basic

/-!
# Tables with unique columns

A table is a list of rows, oldest first, no two of which agree on a unique column. The uniqueness
is a field of the table, so a write that would break it has no result: the constraint violation.

* `Constrained` : which two rows agree on a unique column
* `Table.create`, `Table.update` : insertion and `UPDATE … WHERE`
* `Table.eq_of_clash` : rows that agree on a unique column are one row
* `Table.column` : one column as a function of a unique one, and what a write does to it
-/

set_option autoImplicit false

namespace Effect

/-- Rows with unique columns: `clash` tells whether two rows agree on one of them. -/
class Constrained (α : Type) where
  clash : α → α → Bool
  clash_comm : ∀ a b, clash a b = clash b a

/-- Agreement of two optional columns; a null agrees with nothing. -/
def sameValue {α : Type} [DecidableEq α] (a b : Option α) : Bool := a.isSome && a == b

theorem sameValue_comm {α : Type} [DecidableEq α] (a b : Option α) :
    sameValue a b = sameValue b a := by
  cases a with
  | none => cases b <;> rfl
  | some a => cases b with
    | none => rfl
    | some b => simp [sameValue, Bool.beq_comm]

@[simp] theorem sameValue_some {α : Type} [DecidableEq α] (a : α) (b : Option α) :
    sameValue (some a) b = true ↔ b = some a := by
  cases b with
  | none => simp [sameValue]
  | some b =>
      simp only [sameValue, Option.isSome_some, Bool.true_and, beq_iff_eq, Option.some.injEq]
      exact eq_comm

/-- A list of rows with no constraint violation. -/
structure Table (α : Type) [Constrained α] where
  rows : List α
  distinct : rows.Pairwise fun a b => Constrained.clash a b = false

namespace Table

variable {α : Type} [Constrained α] {t t' : Table α} {a b x : α} {p : α → Bool} {f : α → α}

instance : Membership α (Table α) := ⟨fun t a => a ∈ t.rows⟩

theorem mem_def : a ∈ t ↔ a ∈ t.rows := Iff.rfl

/-- A table is its rows. -/
theorem ext_rows (h : t.rows = t'.rows) : t = t' := by
  cases t
  cases t'
  cases h
  rfl

/-- The table without rows. -/
def empty : Table α := ⟨[], .nil⟩

instance : Inhabited (Table α) := ⟨empty⟩

@[simp] theorem not_mem_empty (a : α) : a ∉ (empty : Table α) := List.not_mem_nil

/-- Rows that agree on a unique column are one row. -/
theorem eq_of_clash (ha : a ∈ t) (hb : b ∈ t) (h : Constrained.clash a b = true) : a = b := by
  by_contra hne
  have hsym : Std.Symm fun a b : α => Constrained.clash a b = false :=
    ⟨fun a b hab => by rw [Constrained.clash_comm]; exact hab⟩
  have hfalse := t.distinct.forall ha hb hne
  rw [h] at hfalse
  cases hfalse

/-! ## Reading -/

/-- The first row `p` holds of. -/
def find (t : Table α) (p : α → Bool) : Option α := t.rows.find? p

/-- The newest row `p` holds of. -/
def findNewest (t : Table α) (p : α → Bool) : Option α := t.rows.reverse.find? p

/-- All rows `p` holds of, oldest first. -/
def filter (t : Table α) (p : α → Bool) : List α := t.rows.filter p

/-- The number of rows `p` holds of. -/
def count (t : Table α) (p : α → Bool) : Nat := t.rows.countP p

theorem find_spec (h : t.find p = some a) : a ∈ t ∧ p a = true :=
  ⟨List.mem_of_find?_eq_some h, List.find?_some h⟩

theorem find_none (h : t.find p = none) (ha : a ∈ t) : p a = false := by
  simpa using List.find?_eq_none.mp h a ha

/-- A row that alone satisfies `p` is the one found. -/
theorem find_eq (ha : a ∈ t) (hp : p a = true) (huniq : ∀ b ∈ t, p b = true → b = a) :
    t.find p = some a := by
  obtain ⟨b, hb⟩ := Option.isSome_iff_exists.mp (List.find?_isSome.mpr ⟨a, ha, hp⟩)
  obtain ⟨hbt, hpb⟩ := find_spec hb
  rw [find, hb, huniq b hbt hpb]

theorem findNewest_spec (h : t.findNewest p = some a) : a ∈ t ∧ p a = true :=
  ⟨List.mem_reverse.mp (List.mem_of_find?_eq_some h), List.find?_some h⟩

theorem findNewest_none (h : t.findNewest p = none) (ha : a ∈ t) : p a = false := by
  simpa using List.find?_eq_none.mp h a (List.mem_reverse.mpr ha)

theorem mem_filter : a ∈ t.filter p ↔ a ∈ t ∧ p a = true := List.mem_filter

/-- A table whose column reads `[b]` has one row. -/
theorem of_map_eq_singleton {β : Type} {f : α → β} {b : β} (h : t.rows.map f = [b]) :
    (∃ a ∈ t, f a = b) ∧ ∀ a ∈ t, f a = b := by
  have hmem : ∀ a ∈ t, f a = b := fun a ha => by
    have hfa := List.mem_map_of_mem (f := f) ha
    rw [h] at hfa
    exact List.mem_singleton.mp hfa
  obtain ⟨a, ha, hfa⟩ := List.mem_map.mp (h ▸ List.mem_singleton_self b : b ∈ t.rows.map f)
  exact ⟨⟨a, ha, hfa⟩, hmem⟩

/-! ## Writing -/

/-- Insert a row, unless it agrees with a present one on a unique column. -/
def create (t : Table α) (a : α) : Option (Table α) :=
  if h : ∀ b ∈ t.rows, Constrained.clash b a = false then
    some ⟨t.rows ++ [a], List.pairwise_append.mpr
      ⟨t.distinct, List.pairwise_singleton _ a, fun b hb c hc => by
        rw [List.mem_singleton] at hc; rw [hc]; exact h b hb⟩⟩
  else none

/-- Apply `f` to the rows `p` holds of, unless that breaks a constraint. -/
def update (t : Table α) (p : α → Bool) (f : α → α) : Option (Table α) :=
  if h : (t.rows.map fun a => if p a then f a else a).Pairwise
      fun a b => Constrained.clash a b = false then
    some ⟨_, h⟩
  else none

/-- Delete the rows `p` holds of. -/
def delete (t : Table α) (p : α → Bool) : Table α :=
  ⟨t.rows.filter fun a => !p a, t.distinct.filter _⟩

/-- The rows mapped one by one; rows that agree afterwards agreed before. -/
def map {β : Type} [Constrained β] (t : Table α) (g : α → β)
    (h : ∀ a b, Constrained.clash (g a) (g b) = true → Constrained.clash a b = true) : Table β where
  rows := t.rows.map g
  distinct := List.pairwise_map.mpr (t.distinct.imp fun {a b} hab => by
    cases hg : Constrained.clash (g a) (g b) with
    | false => rfl
    | true => rw [h a b hg] at hab; cases hab)

theorem mem_delete : x ∈ t.delete p ↔ x ∈ t ∧ p x = false := by
  rw [mem_def, delete, List.mem_filter, Bool.not_eq_true']; rfl

theorem rows_create (h : t.create a = some t') : t'.rows = t.rows ++ [a] := by
  unfold create at h
  split at h
  · cases h; rfl
  · cases h

theorem mem_create (h : t.create a = some t') : x ∈ t' ↔ x ∈ t ∨ x = a := by
  rw [mem_def, rows_create h, List.mem_append, List.mem_singleton]; rfl

theorem create_isSome (h : ∀ b ∈ t, Constrained.clash b a = false) :
    ∃ t', t.create a = some t' := by
  unfold create
  rw [dif_pos (show ∀ b ∈ t.rows, Constrained.clash b a = false from h)]
  exact ⟨_, rfl⟩

theorem create_no_clash (h : t.create a = some t') (hb : b ∈ t) :
    Constrained.clash b a = false := by
  unfold create at h
  split at h
  · exact ‹∀ b ∈ t.rows, Constrained.clash b a = false› b hb
  · cases h

theorem create_eq_none (h : t.create a = none) : ∃ b ∈ t, Constrained.clash b a = true := by
  by_contra hno
  have hall : ∀ b ∈ t, Constrained.clash b a = false := fun b hb => by
    by_contra hc
    exact hno ⟨b, hb, by simpa using hc⟩
  obtain ⟨t', ht'⟩ := create_isSome hall
  rw [h] at ht'
  cases ht'

theorem rows_update (h : t.update p f = some t') :
    t'.rows = t.rows.map fun a => if p a then f a else a := by
  unfold update at h
  split at h
  · cases h; rfl
  · cases h

theorem mem_update (h : t.update p f = some t') :
    x ∈ t' ↔ ∃ a ∈ t, (if p a then f a else a) = x := by
  rw [mem_def, rows_update h, List.mem_map]; rfl

/-- An updated row is in the new table. -/
theorem mem_update_of (h : t.update p f = some t') (ha : a ∈ t) (hp : p a = true) : f a ∈ t' :=
  (mem_update h).mpr ⟨a, ha, if_pos hp⟩

/-- A row the update does not select stays. -/
theorem mem_update_of_not (h : t.update p f = some t') (ha : a ∈ t) (hp : p a = false) :
    a ∈ t' := (mem_update h).mpr ⟨a, ha, by simp [hp]⟩

/-- An update that keeps every clash as it was breaks no constraint. -/
theorem update_isSome (h : ∀ a ∈ t, ∀ b ∈ t,
    Constrained.clash (if p a then f a else a) (if p b then f b else b) = Constrained.clash a b) :
    ∃ t', t.update p f = some t' := by
  unfold update
  have hpair : (t.rows.map fun a => if p a then f a else a).Pairwise
      fun a b => Constrained.clash a b = false := by
    rw [List.pairwise_map]
    refine t.distinct.imp_of_mem fun {a b} ha hb hab => ?_
    rw [h a ha b hb]
    exact hab
  rw [dif_pos hpair]
  exact ⟨_, rfl⟩

/-- An update of one row that then agrees with no other row breaks no constraint. -/
theorem update_one_isSome (ha : a ∈ t) (hpa : p a = true) (hself : Constrained.clash a a = true)
    (honly : ∀ b ∈ t, p b = true → b = a)
    (hclash : ∀ b ∈ t, b ≠ a → Constrained.clash (f a) b = false) :
    ∃ t', t.update p f = some t' := by
  unfold update
  have hpair : (t.rows.map fun a => if p a then f a else a).Pairwise
      fun a b => Constrained.clash a b = false := by
    rw [List.pairwise_map]
    refine t.distinct.imp_of_mem fun {x y} hx hy hxy => ?_
    have hne : ∀ z, p z = true → z ∈ t → z = a := fun z hz hzt => honly z hzt hz
    cases hpx : p x with
    | true =>
        obtain rfl := hne x hpx hx
        have hyx : y ≠ x := fun heq => by rw [heq, hself] at hxy; cases hxy
        have hpy : p y = false := by
          by_contra hpy
          exact hyx (hne y (by simpa using hpy) hy)
        simp only [hpy, if_true, Bool.false_eq_true, if_false]
        exact hclash y hy hyx
    | false =>
        cases hpy : p y with
        | true =>
            obtain rfl := hne y hpy hy
            have hxy' : x ≠ y := fun heq => by rw [heq, hpa] at hpx; cases hpx
            simp only [Bool.false_eq_true, if_false, if_true]
            rw [Constrained.clash_comm]
            exact hclash x hx hxy'
        | false => simpa using hxy
  rw [dif_pos hpair]
  exact ⟨_, rfl⟩

/-- The only row a filter selects is counted once. -/
theorem count_one (ha : a ∈ t) (hpa : p a = true) (hself : Constrained.clash a a = true)
    (honly : ∀ b ∈ t, p b = true → b = a) : t.count p = 1 := by
  obtain ⟨l₁, l₂, hrows⟩ := List.append_of_mem (show a ∈ t.rows from ha)
  have hdistinct := t.distinct
  rw [hrows, List.pairwise_append, List.pairwise_cons] at hdistinct
  obtain ⟨-, ⟨hafter, -⟩, hbefore⟩ := hdistinct
  have hnone : ∀ b ∈ t.rows, Constrained.clash b a = false ∨ Constrained.clash a b = false →
      ¬ p b = true := by
    rintro b hb hne hpb
    obtain rfl := honly b hb hpb
    rcases hne with hne | hne <;> rw [hself] at hne <;> cases hne
  have h₁ : l₁.countP p = 0 := List.countP_eq_zero.mpr fun b hb =>
    hnone b (by rw [hrows]; exact List.mem_append_left _ hb)
      (.inl (hbefore b hb a List.mem_cons_self))
  have h₂ : l₂.countP p = 0 := List.countP_eq_zero.mpr fun b hb =>
    hnone b (by rw [hrows]; exact List.mem_append_right _ (List.mem_cons_of_mem _ hb))
      (.inr (hafter b hb))
  rw [count, hrows, List.countP_append, List.countP_cons_of_pos hpa, h₁, h₂]

/-! ## Rows across a write -/

/-- A property of the new row and of the old ones holds of every row after an insertion. -/
theorem forall_create {P : α → Prop} (h : t.create a = some t') (ha : P a)
    (ht : ∀ b ∈ t, P b) : ∀ b ∈ t', P b := by
  intro b hb
  rcases (mem_create h).mp hb with hb | rfl
  · exact ht b hb
  · exact ha

/-- A property of the updated rows and of the others holds of every row after an update. -/
theorem forall_update {P : α → Prop} (h : t.update p f = some t')
    (hf : ∀ a ∈ t, p a = true → P (f a)) (ht : ∀ a ∈ t, P a) : ∀ b ∈ t', P b := by
  intro b hb
  obtain ⟨a, ha, rfl⟩ := (mem_update h).mp hb
  split
  · exact hf a ha ‹_›
  · exact ht a ha

/-- An insertion is unseen by a filter that leaves the new row out. -/
theorem filter_create {q : α → Bool} (h : t.create a = some t') (ha : q a = false) :
    t'.filter q = t.filter q := by
  have hnone : [a].filter q = [] := List.filter_eq_nil_iff.mpr fun b hb => by
    rw [List.mem_singleton.mp hb, ha]
    exact Bool.false_ne_true
  rw [filter, rows_create h, List.filter_append, hnone, List.append_nil, filter]

/-- An update is unseen by a filter that leaves the updated rows out, before and after. -/
theorem filter_update {q : α → Bool} (h : t.update p f = some t')
    (hq : ∀ a ∈ t, p a = true → q a = false ∧ q (f a) = false) : t'.filter q = t.filter q := by
  have hsame : ∀ a ∈ t.rows, q (if p a then f a else a) = q a := fun a ha => by
    by_cases hp : p a = true
    · rw [if_pos hp, (hq a ha hp).1, (hq a ha hp).2]
    · rw [if_neg hp]
  have hkept : ∀ a ∈ t.rows.filter q, (if p a then f a else a) = a := fun a ha => by
    obtain ⟨hmem, hqa⟩ := List.mem_filter.mp ha
    refine if_neg fun hp => ?_
    rw [(hq a hmem hp).1] at hqa
    cases hqa
  rw [filter, rows_update h, List.filter_map, filter]
  calc (t.rows.filter fun a => q (if p a then f a else a)).map (fun a => if p a then f a else a)
      = (t.rows.filter q).map fun a => if p a then f a else a := by rw [List.filter_congr hsame]
    _ = t.rows.filter q := by rw [List.map_congr_left hkept, List.map_id']

/-- A filter that leaves more out sees no more. -/
theorem filter_narrow {q q' : α → Bool}
    (h : t'.filter q' = t.filter q') (hq : ∀ a, q a = true → q' a = true) : t'.filter q = t.filter q := by
  have hnarrow : ∀ t : Table α, (t.filter q').filter q = t.filter q := fun t => by
    rw [filter, filter, List.filter_filter]
    refine List.filter_congr fun a _ => ?_
    cases hqa : q a with
    | true => rw [hq a hqa]; rfl
    | false => rfl
  rw [← hnarrow t', h, hnarrow t]

/-- Every row survives an insertion. -/
theorem exists_create {R : α → α → Prop} (h : t.create a = some t') (hrefl : ∀ b, R b b) :
    ∀ b ∈ t, ∃ b' ∈ t', R b b' := fun b hb => ⟨b, (mem_create h).mpr (.inl hb), hrefl b⟩

/-- Every row has a successor after an update. -/
theorem exists_update {R : α → α → Prop} (h : t.update p f = some t') (hrefl : ∀ b, R b b)
    (hf : ∀ a ∈ t, p a = true → R a (f a)) : ∀ b ∈ t, ∃ b' ∈ t', R b b' := by
  intro b hb
  cases hp : p b with
  | true => exact ⟨f b, mem_update_of h hb hp, hf b hb hp⟩
  | false => exact ⟨b, mem_update_of_not h hb hp, hrefl b⟩

/-! ## One column -/

section Column

variable {κ β : Type} [DecidableEq κ] {key : α → κ} {val : α → β} {k : κ} {v : β}

/-- What the row with this key has in a column. -/
def column (key : α → κ) (val : α → β) (t : Table α) (k : κ) : Option β :=
  (t.find fun a => key a == k).map val

/-- The key is a unique column. -/
def Keyed (key : α → κ) : Prop := ∀ a b : α, key a = key b → Constrained.clash a b = true

theorem column_eq_some (hkey : Keyed key) :
    t.column key val k = some v ↔ ∃ a ∈ t, key a = k ∧ val a = v := by
  constructor
  · intro h
    obtain ⟨a, hfind, hval⟩ := Option.map_eq_some_iff.mp h
    obtain ⟨ha, hk⟩ := find_spec hfind
    exact ⟨a, ha, beq_iff_eq.mp hk, hval⟩
  · rintro ⟨a, ha, hk, hval⟩
    have hfind : (t.find fun a => key a == k) = some a :=
      find_eq ha (beq_iff_eq.mpr hk) fun b hb hbk =>
        eq_of_clash hb ha (hkey b a ((beq_iff_eq.mp hbk).trans hk.symm))
    rw [column, hfind, Option.map_some, hval]

theorem column_of_mem (hkey : Keyed key) (ha : a ∈ t) : t.column key val (key a) = some (val a) :=
  (column_eq_some hkey).mpr ⟨a, ha, rfl, rfl⟩

theorem column_eq_none : t.column key val k = none ↔ ∀ a ∈ t, key a ≠ k := by
  rw [column, Option.map_eq_none_iff]
  refine List.find?_eq_none.trans (forall_congr' fun a => imp_congr Iff.rfl ?_)
  simp

@[simp] theorem column_empty : (empty : Table α).column key val k = none := rfl

/-- Tables with the same values under the same keys. -/
theorem column_congr (hkey : Keyed key)
    (h : ∀ k v, (∃ a ∈ t', key a = k ∧ val a = v) ↔ ∃ a ∈ t, key a = k ∧ val a = v) :
    t'.column key val = t.column key val := by
  funext k
  ext v
  rw [column_eq_some hkey, column_eq_some hkey]
  exact h k v

theorem column_create (hkey : Keyed key) (h : t.create a = some t') :
    t'.column key val = Function.update (t.column key val) (key a) (some (val a)) := by
  funext k
  by_cases hk : k = key a
  · subst hk
    rw [Function.update_self]
    exact column_of_mem hkey ((mem_create h).mpr (.inr rfl))
  · rw [Function.update_of_ne hk]
    ext v
    rw [column_eq_some hkey, column_eq_some hkey]
    constructor
    · rintro ⟨b, hb, hbk, hv⟩
      rcases (mem_create h).mp hb with hb | rfl
      · exact ⟨b, hb, hbk, hv⟩
      · exact absurd hbk.symm hk
    · rintro ⟨b, hb, hbk, hv⟩
      exact ⟨b, (mem_create h).mpr (.inl hb), hbk, hv⟩

/-- An update of other columns. -/
theorem column_update_same (hkey : Keyed key) (h : t.update p f = some t')
    (hf : ∀ a ∈ t, p a = true → key (f a) = key a ∧ val (f a) = val a) :
    t'.column key val = t.column key val := by
  refine column_congr hkey fun k v => ⟨?_, ?_⟩
  · rintro ⟨b, hb, hbk, hv⟩
    obtain ⟨a, ha, rfl⟩ := (mem_update h).mp hb
    split at hbk <;> rename_i hp
    · rw [if_pos hp] at hv
      exact ⟨a, ha, (hf a ha hp).1.symm.trans hbk, (hf a ha hp).2.symm.trans hv⟩
    · rw [if_neg hp] at hv
      exact ⟨a, ha, hbk, hv⟩
  · rintro ⟨a, ha, hak, hv⟩
    cases hp : p a with
    | true =>
        exact ⟨f a, mem_update_of h ha hp, (hf a ha hp).1.trans hak, (hf a ha hp).2.trans hv⟩
    | false => exact ⟨a, mem_update_of_not h ha hp, hak, hv⟩

/-- An update of one row. -/
theorem column_update_one (hkey : Keyed key) (h : t.update p f = some t') (ha : a ∈ t)
    (hp : p a = true) (hone : ∀ b ∈ t, p b = true → key b = key a)
    (hf : ∀ b, key (f b) = key b) :
    t'.column key val = Function.update (t.column key val) (key a) (some (val (f a))) := by
  funext k
  by_cases hk : k = key a
  · subst hk
    rw [Function.update_self, ← hf a]
    exact column_of_mem hkey (mem_update_of h ha hp)
  · rw [Function.update_of_ne hk]
    ext v
    rw [column_eq_some hkey, column_eq_some hkey]
    constructor
    · rintro ⟨b, hb, hbk, hv⟩
      obtain ⟨c, hc, rfl⟩ := (mem_update h).mp hb
      split at hbk <;> rename_i hpc
      · rw [hf] at hbk
        exact absurd (hbk.symm.trans (hone c hc hpc)) hk
      · rw [if_neg hpc] at hv
        exact ⟨c, hc, hbk, hv⟩
    · rintro ⟨b, hb, hbk, hv⟩
      have hpb : p b = false := by
        by_contra hpb
        exact hk (hbk.symm.trans (hone b hb (by simpa using hpb)))
      exact ⟨b, mem_update_of_not h hb hpb, hbk, hv⟩

end Column

end Table

end Effect
