import Meduman.Model.Listing

/-!
# Traversals of the lists

* `Snapshots` : the states of a table that the reads of a traversal see
* `Throughout`, `Drops` : a row that matches at every read, and one that a read drops in place of its
  cursor's
* `Complete` : a traversal ends and returns every row that matches throughout, once and in order
* `page_reader`, `returns_iff` : the reads of a list are those of a cursor at the key of its row
* **`complete_iff`** : a traversal is complete exactly where no such row is dropped
* **`lists_complete`** : so it is for the four lists
-/

set_option autoImplicit false

namespace Meduman.Listing

open Paging
open Linking (ChatLinkRequest ChatLinkRequestStatus)

variable {ρ σ : Type}

/-! ## Traversals -/

/-- The states of a table that the reads of a traversal see: no row goes away or comes to have another
`createdAt`, and rows that come are newer than those of the first read. -/
structure Snapshots (id : ρ → Uuid) (tables : Nat → List (Dated ρ)) : Prop where
  unique : ∀ n, ((tables n).map fun d => id d.row).Nodup
  kept : ∀ n, ∀ d ∈ tables 0, ∃ e ∈ tables n, key id e = key id d
  newer : ∀ n, ∀ e ∈ tables n,
    (∃ d ∈ tables 0, key id d = key id e) ∨ ∀ d ∈ tables 0, key id d < key id e

theorem snapshots_const {id : ρ → Uuid} {table : List (Dated ρ)}
    (h : (table.map fun d => id d.row).Nodup) : Snapshots id fun _ => table where
  unique _ := h
  kept _ d hd := ⟨d, hd, rfl⟩
  newer _ e he := .inl ⟨e, he, rfl⟩

/-- A row matches at every read of a traversal. -/
def Throughout (id : ρ → Uuid) (tables : Nat → List (Dated ρ)) (filter : ρ → Bool)
    (read : Nat → Option Uuid → Page (Dated σ) Uuid) (i : Uuid) : Prop :=
  ∀ n cursor, Reaches read n cursor → ∃ d ∈ tables n, id d.row = i ∧ filter d.row = true

/-- A read whose cursor's row does not match drops the first row behind it that does. -/
def Drops (id : ρ → Uuid) (table : List (Dated ρ)) (filter : ρ → Bool) (c i : Uuid) : Prop :=
  ∃ start ∈ table, id start.row = c ∧ filter start.row = false ∧
    ∃ d ∈ table, id d.row = i ∧ filter d.row = true ∧ key id d < key id start ∧
      ∀ e ∈ table, filter e.row = true → key id e < key id start → key id e ≤ key id d

instance (id : ρ → Uuid) (table : List (Dated ρ)) (filter : ρ → Bool) (c i : Uuid) :
    Decidable (Drops id table filter c i) := by unfold Drops; infer_instance

/-- A traversal ends, and returns every row that matches throughout, once and in order. -/
def Complete (id : ρ → Uuid) (id' : σ → Uuid) (tables : Nat → List (Dated ρ)) (filter : ρ → Bool)
    (read : Nat → Option Uuid → Page (Dated σ) Uuid) : Prop :=
  ∃ items, Returns read 0 none items ∧ Sorted (key id') items ∧
    ∀ i, Throughout id tables filter read i → ∃ d ∈ items, id' d.row = i

/-- No read of a traversal drops a row that matches throughout. -/
def DropsNone (id : ρ → Uuid) (tables : Nat → List (Dated ρ)) (filter : ρ → Bool)
    (read : Nat → Option Uuid → Page (Dated σ) Uuid) : Prop :=
  ∀ n c i, Reaches read n (some c) → Drops id (tables n) filter c i →
    ¬ Throughout id tables filter read i

/-! ## The reads of a list -/

section Reads

variable {id : ρ → Uuid} {tables : Nat → List (Dated ρ)} {filter : ρ → Bool} {take n : Nat}

/-- The rows that match, newest first. -/
def matching (id : ρ → Uuid) (filter : ρ → Bool) (table : List (Dated ρ)) : List (Dated ρ) :=
  (table.insertionSort (Newer id)).filter fun d => filter d.row

theorem mem_matching {table : List (Dated ρ)} {d : Dated ρ} :
    d ∈ matching id filter table ↔ d ∈ table ∧ filter d.row = true := by
  rw [matching, List.mem_filter, List.mem_insertionSort]

theorem key_id {d e : Dated ρ} (h : key id d = key id e) : id d.row = id e.row :=
  Uuid.ext (congrArg (fun k : Int ×ₗ String => (ofLex k).2) h)

theorem eq_of_id {table : List (Dated ρ)} {d e : Dated ρ}
    (hunique : (table.map fun d => id d.row).Nodup) (hd : d ∈ table) (he : e ∈ table)
    (h : id d.row = id e.row) : d = e := List.inj_on_of_nodup_map hunique hd he h

instance : Std.Total (Newer id) := ⟨fun a b => le_total (key id b) (key id a)⟩

instance : IsTrans (Dated ρ) (Newer id) := ⟨fun _ _ _ hab hbc => le_trans hbc hab⟩

theorem matching_sorted {table : List (Dated ρ)} (hunique : (table.map fun d => id d.row).Nodup) :
    Sorted (key id) (matching id filter table) := by
  have hle := List.pairwise_insertionSort (Newer id) table
  have hne : (table.insertionSort (Newer id)).Pairwise fun a b => id a.row ≠ id b.row := by
    have hperm := (List.perm_insertionSort (Newer id) table).map fun d => id d.row
    exact List.pairwise_map.mp (hperm.nodup_iff.mpr hunique)
  refine List.Pairwise.filter _ (hle.imp₂ (fun a b hab hne => ?_) hne)
  exact lt_of_le_of_ne hab fun h => hne (key_id h).symm

/-- A cursor and the key of its row. -/
def At (id : ρ → Uuid) (table : List (Dated ρ)) : Option Uuid → Option (Int ×ₗ String) → Prop
  | none, none => True
  | some c, some k => ∃ d ∈ table, id d.row = c ∧ key id d = k
  | _, _ => False

/-- A page of a list, cut from the rows that match. -/
theorem cut_of_more (l : List (Dated ρ)) :
    ({ items := (l.take (take + 1)).take take
       nextCursor := if take < (l.take (take + 1)).length then
          ((l.take (take + 1)).take take).getLast?.map fun d => id d.row else none } :
        Page (Dated ρ) Uuid) = cut (fun d => id d.row) take l := by
  have hitems : (l.take (take + 1)).take take = l.take take := by
    rw [List.take_take, Nat.min_eq_left (Nat.le_succ take)]
  have hmore : take < (l.take (take + 1)).length ↔ take < l.length := by
    rw [List.length_take]
    omega
  rw [cut, hitems]
  simp only [hmore]

/-- The same traversal, by the keys of the cursors' rows. -/
abbrev keyRead (id : ρ → Uuid) (tables : Nat → List (Dated ρ)) (filter : ρ → Bool) (take : Nat) :
    Nat → Option (Int ×ₗ String) → Page (Dated ρ) (Int ×ₗ String) :=
  reader (key id) (fun n => matching id filter (tables n)) take

/-- What is returned was there at some read. -/
theorem returned_from {k : Option (Int ×ₗ String)} {rows : List (Dated ρ)}
    (hreturns : Returns (keyRead id tables filter take) n k rows) :
    ∀ d ∈ rows, ∃ m, d ∈ tables m := by
  have hpage : ∀ n k, ∀ d ∈ (keyRead id tables filter take n k).items, d ∈ tables n :=
    fun n k d hd => (mem_matching.mp ((after_sublist _ k).subset (List.mem_of_mem_take hd))).1
  induction hreturns with
  | last _ => exact fun d hd => ⟨_, hpage _ _ d hd⟩
  | next _ _ ih =>
      intro d hd
      rcases List.mem_append.mp hd with hd | hd
      · exact ⟨_, hpage _ _ d hd⟩
      · exact ih d hd

variable (h : Snapshots id tables)

include h

/-- **A read of a list** is the read behind the key of its cursor's row. -/
theorem page_eq {cursor : Option Uuid} {k : Option (Int ×ₗ String)} (hat : At id (tables 0) cursor k) :
    page id (tables n) filter take cursor =
      cut (fun d => id d.row) take (after (key id) (matching id filter (tables n)) k) := by
  rw [← cut_of_more]
  cases cursor with
  | none =>
      cases k with
      | none => rfl
      | some k => cases hat
  | some c =>
      cases k with
      | none => cases hat
      | some k =>
          obtain ⟨d, hd, rfl, rfl⟩ := hat
          obtain ⟨e, he, hkey⟩ := h.kept n d hd
          have hfind : (tables n).find? (fun a => id a.row == id d.row) = some e := by
            cases hfound : (tables n).find? fun a => id a.row == id d.row with
            | none =>
                have hnone := List.find?_eq_none.mp hfound e he
                exact absurd (beq_iff_eq.mpr (key_id hkey)) hnone
            | some e' =>
                have hid : id e'.row = id d.row := by simpa using List.find?_some hfound
                rw [eq_of_id (h.unique n) (List.mem_of_find?_eq_some hfound) he
                  (hid.trans (key_id hkey).symm)]
          rw [page, findMany]
          simp only [hfind, hkey]
          rfl

/-- The rows of the reads. -/
theorem reads_matching : Reads (key id) (fun n => matching id filter (tables n))
    ((tables 0).map (key id)).toFinset where
  sorted n := matching_sorted (h.unique n)
  first d hd := List.mem_toFinset.mpr (List.mem_map_of_mem (mem_matching.mp hd).1)
  newer n e he hnew k hk := by
    obtain ⟨d, hd, rfl⟩ := List.mem_map.mp (List.mem_toFinset.mp hk)
    rcases h.newer n e (mem_matching.mp he).1 with ⟨d', hd', hkey⟩ | hnewer
    · exact absurd (List.mem_toFinset.mpr (List.mem_map.mpr ⟨d', hd', hkey⟩)) hnew
    · exact hnewer d hd

variable {read : Nat → Option Uuid → Page (Dated ρ) Uuid}
  (hread : ∀ n cursor, read n cursor = page id (tables n) filter take cursor)

include hread

/-- The next cursors are those of one row, or none. -/
theorem next_at {cursor : Option Uuid} {k : Option (Int ×ₗ String)}
    (hat : At id (tables 0) cursor k) (hreach : Reaches (keyRead id tables filter take) n k) :
    ((read n cursor).nextCursor = none ∧ (keyRead id tables filter take n k).nextCursor = none) ∨
      ∃ c k', (read n cursor).nextCursor = some c ∧
        (keyRead id tables filter take n k).nextCursor = some k' ∧
          At id (tables 0) (some c) (some k') := by
  rw [hread, page_eq h hat]
  rcases cut_cursors (fun d => id d.row) (key id) take
    (after (key id) (matching id filter (tables n)) k) with hnone | ⟨row, -, hc, hk⟩
  · exact .inl hnone
  · obtain ⟨d, hd, hkey⟩ := List.mem_map.mp
      (List.mem_toFinset.mp ((reaches_keys (reads_matching h) (.next hreach hk)).2 _ rfl))
    exact .inr ⟨_, _, hc, hk, d, hd, key_id hkey, hkey⟩

theorem reaches_key {cursor : Option Uuid} (hreach : Reaches read n cursor) :
    ∃ k, At id (tables 0) cursor k ∧ Reaches (keyRead id tables filter take) n k := by
  induction hreach with
  | first => exact ⟨none, trivial, .first⟩
  | next _ hnext ih =>
      obtain ⟨k, hat, hk⟩ := ih
      rcases next_at h hread hat hk with ⟨hnone, -⟩ | ⟨c, k', hc, hk', hat'⟩
      · rw [hnone] at hnext
        cases hnext
      · obtain rfl := Option.some.inj (hc.symm.trans hnext)
        exact ⟨_, hat', .next hk hk'⟩

theorem reaches_of_key {k : Option (Int ×ₗ String)}
    (hreach : Reaches (keyRead id tables filter take) n k) :
    ∃ cursor, At id (tables 0) cursor k ∧ Reaches read n cursor := by
  induction hreach with
  | first => exact ⟨none, trivial, .first⟩
  | next hk hnext ih =>
      obtain ⟨cursor, hat, hcursor⟩ := ih
      rcases next_at h hread hat hk with ⟨-, hnone⟩ | ⟨c, k', hc, hk', hat'⟩
      · rw [hnone] at hnext
        cases hnext
      · obtain rfl := Option.some.inj (hk'.symm.trans hnext)
        exact ⟨_, hat', .next hcursor hc⟩

theorem read_items {cursor : Option Uuid} {k : Option (Int ×ₗ String)}
    (hat : At id (tables 0) cursor k) :
    (read n cursor).items = (keyRead id tables filter take n k).items := by
  rw [hread, page_eq h hat]
  rfl

theorem returns_of_key {k : Option (Int ×ₗ String)} {rows : List (Dated ρ)}
    (hreturns : Returns (keyRead id tables filter take) n k rows) :
    ∀ cursor, At id (tables 0) cursor k → Reaches (keyRead id tables filter take) n k →
      Returns read n cursor rows := by
  induction hreturns with
  | last hlast =>
      intro cursor hat hreach
      rcases next_at h hread hat hreach with ⟨hnone, -⟩ | ⟨c, k', -, hk', -⟩
      · rw [← read_items h hread hat]
        exact .last hnone
      · rw [hk'] at hlast
        cases hlast
  | next hnext _ ih =>
      intro cursor hat hreach
      rcases next_at h hread hat hreach with ⟨-, hnone⟩ | ⟨c, k', hc, hk', hat'⟩
      · rw [hnone] at hnext
        cases hnext
      · obtain rfl := Option.some.inj (hk'.symm.trans hnext)
        rw [← read_items h hread hat]
        exact .next hc (ih _ hat' (.next hreach hk'))

theorem returns_key {cursor : Option Uuid} {rows : List (Dated ρ)}
    (hreturns : Returns read n cursor rows) :
    ∀ k, At id (tables 0) cursor k → Reaches (keyRead id tables filter take) n k →
      Returns (keyRead id tables filter take) n k rows := by
  induction hreturns with
  | last hlast =>
      intro k hat hreach
      rcases next_at h hread hat hreach with ⟨-, hnone⟩ | ⟨c, k', hc, -, -⟩
      · rw [read_items h hread hat]
        exact .last hnone
      · rw [hc] at hlast
        cases hlast
  | next hnext _ ih =>
      intro k hat hreach
      rcases next_at h hread hat hreach with ⟨hnone, -⟩ | ⟨c, k', hc, hk', hat'⟩
      · rw [hnone] at hnext
        cases hnext
      · obtain rfl := Option.some.inj (hc.symm.trans hnext)
        rw [read_items h hread hat]
        exact .next hk' (ih _ hat' (.next hreach hk'))

omit hread in
/-- The row of an identifier keeps its key. -/
theorem key_of_id {i : Uuid} {k : Int ×ₗ String} (hat : At id (tables 0) (some i) (some k))
    {d : Dated ρ} (hd : d ∈ tables n) : id d.row = i ↔ key id d = k := by
  obtain ⟨d₀, hd₀, rfl, rfl⟩ := hat
  refine ⟨fun hid => ?_, key_id⟩
  obtain ⟨e, he, hkey⟩ := h.kept n d₀ hd₀
  rw [eq_of_id (h.unique n) hd he (hid.trans (key_id hkey).symm), hkey]

theorem throughout_iff {i : Uuid} {k : Int ×ₗ String} (hat : At id (tables 0) (some i) (some k)) :
    Throughout id tables filter read i ↔
      Steady (key id) (fun n => matching id filter (tables n)) take k := by
  constructor
  · intro hall n k' hreach
    obtain ⟨cursor, -, hcursor⟩ := reaches_of_key h hread hreach
    obtain ⟨d, hd, hid, hmatch⟩ := hall n cursor hcursor
    exact ⟨d, mem_matching.mpr ⟨hd, hmatch⟩, (key_of_id h hat hd).mp hid⟩
  · intro hall n cursor hreach
    obtain ⟨k', -, hk'⟩ := reaches_key h hread hreach
    obtain ⟨d, hd, hkey⟩ := hall n k' hk'
    obtain ⟨hd, hmatch⟩ := mem_matching.mp hd
    exact ⟨d, hd, (key_of_id h hat hd).mpr hkey, hmatch⟩

omit hread in
theorem drops_iff {c i : Uuid} {kc k : Int ×ₗ String} (hc : At id (tables 0) (some c) (some kc))
    (hi : At id (tables 0) (some i) (some k)) :
    Drops id (tables n) filter c i ↔ Skips (key id) (matching id filter (tables n)) kc k := by
  constructor
  · rintro ⟨start, hstart, hidc, hno, d, hd, hid, hmatch, hlt, hmax⟩
    obtain rfl := (key_of_id h hc hstart).mp hidc
    obtain rfl := (key_of_id h hi hd).mp hid
    refine ⟨fun e he hkey => ?_, ⟨d, mem_matching.mpr ⟨hd, hmatch⟩, rfl⟩, hlt, fun e he hlt => ?_⟩
    · obtain ⟨he, hmatch'⟩ := mem_matching.mp he
      obtain rfl := eq_of_id (h.unique n) he hstart (key_id hkey)
      rw [hno] at hmatch'
      cases hmatch'
    · obtain ⟨he, hmatch'⟩ := mem_matching.mp he
      exact hmax e he hmatch' hlt
  · rintro ⟨hmissing, ⟨d, hd, rfl⟩, hlt, hmax⟩
    obtain ⟨hd, hmatch⟩ := mem_matching.mp hd
    obtain ⟨start, hstart, hkey⟩ : ∃ start ∈ tables n, key id start = kc := by
      obtain ⟨d₀, hd₀, -, rfl⟩ := hc
      exact h.kept n d₀ hd₀
    have hno : filter start.row = false := by
      rw [← Bool.not_eq_true]
      exact fun hmatch' => hmissing start (mem_matching.mpr ⟨hstart, hmatch'⟩) hkey
    subst hkey
    exact ⟨start, hstart, (key_of_id h hc hstart).mpr rfl, hno, d, hd,
      (key_of_id h hi hd).mpr rfl, hmatch, hlt,
      fun e he hmatch' hlt => hmax e (mem_matching.mpr ⟨he, hmatch'⟩) hlt⟩

omit h hread in
/-- A row that matches throughout is there from the first read on. -/
theorem throughout_at {i : Uuid} (hall : Throughout id tables filter read i) :
    ∃ k, At id (tables 0) (some i) (some k) := by
  obtain ⟨d, hd, rfl, -⟩ := hall 0 none .first
  exact ⟨_, d, hd, rfl, rfl⟩

omit h hread in
theorem steady_at {k : Int ×ₗ String}
    (hall : Steady (key id) (fun n => matching id filter (tables n)) take k) :
    ∃ i, At id (tables 0) (some i) (some k) := by
  obtain ⟨d, hd, rfl⟩ := hall 0 none .first
  exact ⟨_, d, (mem_matching.mp hd).1, rfl, rfl⟩

/-- **A traversal of a list** is complete exactly where no read drops a row that matches throughout. -/
theorem complete_iff (htake : 1 ≤ take) :
    Complete id id tables filter read ↔ DropsNone id tables filter read := by
  have hreads : Reads (key id) (fun n => matching id filter (tables n)) _ := reads_matching h
  have hlossless := lossless_iff hreads htake
  constructor
  · rintro ⟨items, hreturns, hsorted, hall⟩ n c i hreach hdrops hsteady
    obtain ⟨k, hi⟩ := throughout_at hsteady
    obtain ⟨kc, hc, hkc⟩ := reaches_key h hread hreach
    cases kc with
    | none => cases hc
    | some kc =>
        refine hlossless.mp ⟨items, returns_key h hread hreturns none trivial .first, hsorted,
          fun k hk => ?_⟩ n kc k hkc ((drops_iff h hc hi).mp hdrops)
          ((throughout_iff h hread hi).mp hsteady)
        obtain ⟨i, hi⟩ := steady_at hk
        obtain ⟨d, hd, hid⟩ := hall i ((throughout_iff h hread hi).mpr hk)
        obtain ⟨m, hm⟩ := returned_from
          (returns_key h hread hreturns none trivial .first) d hd
        exact List.mem_map.mpr ⟨d, hd, (key_of_id h hi hm).mp hid⟩
  · intro hnone
    obtain ⟨rows, hreturns, hsorted, hall⟩ := hlossless.mpr fun n kc k hreach hskips hsteady => by
      obtain ⟨i, hi⟩ := steady_at hsteady
      obtain ⟨c, hc, hcode⟩ := reaches_of_key h hread hreach
      cases c with
      | none => cases hc
      | some c =>
          exact hnone n c i hcode ((drops_iff h hc hi).mpr hskips)
            ((throughout_iff h hread hi).mpr hsteady)
    refine ⟨rows, returns_of_key h hread hreturns none trivial .first, hsorted, fun i hi => ?_⟩
    obtain ⟨k, hk⟩ := throughout_at hi
    obtain ⟨d, hd, hkey⟩ := List.mem_map.mp (hall k ((throughout_iff h hread hk).mp hi))
    obtain ⟨d₀, -, rfl, rfl⟩ := hk
    exact ⟨d, hd, key_id hkey⟩

end Reads

/-! ## Pages with their rows shown otherwise -/

section Views

variable {read : Nat → Option Uuid → Page (Dated ρ) Uuid}
  {read' : Nat → Option Uuid → Page (Dated σ) Uuid} {f : Dated ρ → Dated σ} {n : Nat}
  (hitems : ∀ n cursor, (read' n cursor).items = (read n cursor).items.map f)
  (hnext : ∀ n cursor, (read' n cursor).nextCursor = (read n cursor).nextCursor)

include hnext

theorem reaches_view {cursor : Option Uuid} : Reaches read' n cursor ↔ Reaches read n cursor := by
  constructor
  · intro h
    induction h with
    | first => exact .first
    | next _ hc ih => exact .next ih (hnext _ _ ▸ hc)
  · intro h
    induction h with
    | first => exact .first
    | next _ hc ih => exact .next ih ((hnext _ _).trans hc)

include hitems

theorem returns_view {cursor : Option Uuid} {items : List (Dated σ)} :
    Returns read' n cursor items ↔ ∃ rows, Returns read n cursor rows ∧ items = rows.map f := by
  constructor
  · intro h
    induction h with
    | last hc => exact ⟨_, .last (hnext _ _ ▸ hc), hitems _ _⟩
    | next hc _ ih =>
        obtain ⟨rows, hrows, rfl⟩ := ih
        exact ⟨_, .next (hnext _ _ ▸ hc) hrows, by rw [List.map_append, hitems]⟩
  · rintro ⟨rows, h, rfl⟩
    induction h with
    | last hc => exact hitems _ _ ▸ .last ((hnext _ _).trans hc)
    | next hc _ ih => rw [List.map_append, ← hitems]; exact .next ((hnext _ _).trans hc) ih

/-- Rows shown otherwise, under the same keys, are as complete. -/
theorem complete_view {id : ρ → Uuid} {id' : σ → Uuid} {tables : Nat → List (Dated ρ)}
    {filter : ρ → Bool} (hkey : ∀ d, key id' (f d) = key id d) :
    Complete id id' tables filter read' ↔ Complete id id tables filter read := by
  have hid : ∀ d, id' (f d).row = id d.row := fun d =>
    Uuid.ext (congrArg (fun k : Int ×ₗ String => (ofLex k).2) (hkey d))
  have hall : ∀ i, Throughout id tables filter read' i ↔ Throughout id tables filter read i :=
    fun i => forall₂_congr fun n cursor => by rw [reaches_view hnext]
  have hsorted : ∀ rows : List (Dated ρ), Sorted (key id') (rows.map f) ↔ Sorted (key id) rows := by
    intro rows
    rw [Sorted, List.pairwise_map]
    simp only [hkey]
  constructor
  · rintro ⟨items, hreturns, hitems', hmem⟩
    obtain ⟨rows, hrows, rfl⟩ := (returns_view hitems hnext).mp hreturns
    refine ⟨rows, hrows, (hsorted rows).mp hitems', fun i hi => ?_⟩
    obtain ⟨d, hd, rfl⟩ := hmem i ((hall i).mpr hi)
    obtain ⟨e, he, rfl⟩ := List.mem_map.mp hd
    exact ⟨e, he, (hid e).symm⟩
  · rintro ⟨rows, hrows, hrows', hmem⟩
    refine ⟨rows.map f, (returns_view hitems hnext).mpr ⟨rows, hrows, rfl⟩, (hsorted rows).mpr hrows',
      fun i hi => ?_⟩
    obtain ⟨d, hd, rfl⟩ := hmem i ((hall i).mp hi)
    exact ⟨f d, List.mem_map_of_mem hd, hid d⟩

omit hitems in
theorem dropsNone_view {id : ρ → Uuid} {tables : Nat → List (Dated ρ)} {filter : ρ → Bool} :
    DropsNone id tables filter read' ↔ DropsNone id tables filter read := by
  have hall : ∀ i, Throughout id tables filter read' i ↔ Throughout id tables filter read i :=
    fun i => forall₂_congr fun n cursor => by rw [reaches_view hnext]
  simp only [DropsNone, reaches_view hnext, hall]

end Views

/-! ## The four lists -/

theorem one_le_reviewTake (limit : Option Nat) : 1 ≤ reviewTake limit := by
  unfold reviewTake
  split
  · decide
  · decide
  · rename_i n hn
    have hpos : n ≠ 0 := fun h => hn (h ▸ rfl)
    omega

/-- **Following the cursors of a list** ends, and returns every row that matches at every read, once
and in order, exactly where no read whose cursor's row does not match any more drops such a row. -/
theorem lists_complete {transactions : Nat → List (Dated Transaction)}
    {invoices : Nat → List (Dated Invoice)} {requests : Nat → List (Dated ChatLinkRequest)}
    (htransactions : Snapshots Transaction.id transactions) (hinvoices : Snapshots Invoice.id invoices)
    (hrequests : Snapshots ChatLinkRequest.id requests) {limit : Option Nat}
    (hlimit : ∀ n ∈ limit, 1 ≤ n) :
    (∀ userId role status,
      Complete Transaction.id Transaction.id transactions (ofUser userId role status)
          (fun n cursor => listForUser (transactions n) userId ⟨role, status, cursor, limit⟩) ↔
        DropsNone Transaction.id transactions (ofUser userId role status)
          (fun n cursor => listForUser (transactions n) userId ⟨role, status, cursor, limit⟩)) ∧
    (∀ merchantId status,
      Complete Transaction.id Transaction.id transactions (ofMerchant merchantId status)
          (fun n cursor => listForMerchant (transactions n) merchantId ⟨status, cursor, limit⟩) ↔
        DropsNone Transaction.id transactions (ofMerchant merchantId status)
          (fun n cursor => listForMerchant (transactions n) merchantId ⟨status, cursor, limit⟩)) ∧
    (∀ sellerId status,
      Complete Invoice.id Invoice.id invoices (ofSeller sellerId status)
          (fun n cursor => listForSeller (invoices n) sellerId ⟨status, cursor, limit⟩) ↔
        DropsNone Invoice.id invoices (ofSeller sellerId status)
          (fun n cursor => listForSeller (invoices n) sellerId ⟨status, cursor, limit⟩)) ∧
    ∀ status,
      Complete ChatLinkRequest.id LinkRequestView.id requests (inReview status)
          (fun n cursor => listForReview (requests n) ⟨status, cursor, limit⟩) ↔
        DropsNone ChatLinkRequest.id requests (inReview status)
          (fun n cursor => listForReview (requests n) ⟨status, cursor, limit⟩) := by
  have htake : 1 ≤ limit.getD 20 := by
    cases limit with
    | none => decide
    | some n => exact hlimit n rfl
  refine ⟨fun userId role status => ?_, fun merchantId status => ?_, fun sellerId status => ?_,
    fun status => ?_⟩
  · exact complete_iff htransactions (fun _ _ => rfl) htake
  · exact complete_iff htransactions (fun _ _ => rfl) htake
  · exact complete_iff hinvoices (fun _ _ => rfl) htake
  · let pages (n : Nat) (cursor : Option Uuid) := page ChatLinkRequest.id (requests n)
      (inReview status) (reviewTake limit) cursor
    have hpages := complete_iff hrequests (fun n cursor => (rfl : pages n cursor = _))
      (one_le_reviewTake limit)
    have hviews : Complete ChatLinkRequest.id LinkRequestView.id requests (inReview status)
        (fun n cursor => listForReview (requests n) ⟨status, cursor, limit⟩) ↔
          Complete ChatLinkRequest.id ChatLinkRequest.id requests (inReview status) pages :=
      complete_view (f := fun d => ⟨d.createdAt, view d.row⟩) (fun _ _ => rfl) (fun _ _ => rfl)
        fun _ => rfl
    have hdrops : DropsNone ChatLinkRequest.id requests (inReview status)
        (fun n cursor => listForReview (requests n) ⟨status, cursor, limit⟩) ↔
          DropsNone ChatLinkRequest.id requests (inReview status) pages := by
      apply dropsNone_view
      exact fun _ _ => rfl
    exact hviews.trans (hpages.trans hdrops.symm)

/-! ## A transaction that comes to have another status -/

namespace Demo

def merchant : Uuid := ⟨"00000000-0000-4000-8005-000000000001", by decide⟩

def newest : Uuid := ⟨"00000000-0000-4000-8005-000000000002", by decide⟩

def middle : Uuid := ⟨"00000000-0000-4000-8005-000000000003", by decide⟩

def oldest : Uuid := ⟨"00000000-0000-4000-8005-000000000004", by decide⟩

def sale (i : Uuid) (status : TransactionStatus) : Transaction where
  id := i
  publicLinkId := i.text
  sellerId := merchant
  buyerId := none
  title := "A sale"
  description := none
  amount := 500000
  currency := "NGN"
  status := status
  releaseRule := .buyerConfirmation
  expectedDeliveryDate := none
  feeModel := .buyerPays
  feeAmount := 7500
  merchantId := some merchant
  origin := .eaas

/-- Three sales. -/
def opened : List (Dated Transaction) :=
  [⟨1, sale oldest .linkActive⟩, ⟨2, sale middle .linkActive⟩, ⟨3, sale newest .linkActive⟩]

/-- The newest of them is paid. -/
def paid : List (Dated Transaction) :=
  [⟨1, sale oldest .linkActive⟩, ⟨2, sale middle .linkActive⟩, ⟨3, sale newest .paymentProtected⟩]

/-- It is paid after the first read. -/
def sales : Nat → List (Dated Transaction)
  | 0 => opened
  | _ + 1 => paid

/-- The merchant's sales that are still open, one a page. -/
def stillOpen (n : Nat) (cursor : Option Uuid) : Page (Dated Transaction) Uuid :=
  listForMerchant (sales n) merchant ⟨some .linkActive, cursor, some 1⟩

theorem snapshots : Snapshots Transaction.id sales where
  unique n := by
    cases n with
    | zero => exact (by decide : (opened.map fun d => d.row.id).Nodup)
    | succ n => exact (by decide : (paid.map fun d => d.row.id).Nodup)
  kept n := by
    cases n with
    | zero => exact fun d hd => ⟨d, hd, rfl⟩
    | succ n =>
        exact (by decide : ∀ d ∈ opened, ∃ e ∈ paid, key Transaction.id e = key Transaction.id d)
  newer n e he := by
    cases n with
    | zero => exact .inl ⟨e, he, rfl⟩
    | succ n =>
        have hkeys : ∀ e ∈ paid, ∃ d ∈ opened, key Transaction.id d = key Transaction.id e := by decide
        exact .inl (hkeys e he)

end Demo

/-- A sale that is open throughout is not returned. -/
theorem sale_dropped : Snapshots Transaction.id Demo.sales ∧
    ¬ Complete Transaction.id Transaction.id Demo.sales (ofMerchant Demo.merchant (some .linkActive))
      Demo.stillOpen := by
  refine ⟨Demo.snapshots, fun hcomplete => ?_⟩
  have hnone := (complete_iff Demo.snapshots (fun _ _ => rfl) (by decide)).mp hcomplete
  refine hnone 1 Demo.newest Demo.middle (.next .first (by decide)) (by decide) ?_
  intro n cursor _
  refine ⟨⟨2, Demo.sale Demo.middle .linkActive⟩, ?_, by decide, by decide⟩
  cases n with
  | zero => exact .tail _ (.head _)
  | succ n => exact .tail _ (.head _)

/-- Where no sale changes, the list is complete: a read drops a row behind one that does not match, and
every sale does. -/
theorem sales_complete :
    Complete Transaction.id Transaction.id (fun _ => Demo.opened) (ofMerchant Demo.merchant none)
      (fun _ cursor => listForMerchant Demo.opened Demo.merchant ⟨none, cursor, some 1⟩) := by
  have hmatch : ∀ d ∈ Demo.opened, ofMerchant Demo.merchant none d.row = true := by decide
  refine ((lists_complete
    (snapshots_const (by decide : (Demo.opened.map fun d => d.row.id).Nodup))
    (snapshots_const (by decide : (([] : List (Dated Invoice)).map fun d => d.row.id).Nodup))
    (snapshots_const (by decide : (([] : List (Dated ChatLinkRequest)).map fun d => d.row.id).Nodup))
    (by decide : ∀ n ∈ some 1, 1 ≤ n)).2.1 Demo.merchant none).mpr ?_
  intro n c i _ hdrops
  obtain ⟨start, hstart, -, hout, -⟩ := hdrops
  rw [hmatch start hstart] at hout
  cases hout

end Meduman.Listing
