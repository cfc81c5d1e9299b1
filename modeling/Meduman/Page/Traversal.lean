import Mathlib.Data.Finset.Card
import Mathlib.Data.List.Sort
import Mathlib.Order.Basic

/-!
# Following a cursor

A list is read page by page, from the largest key down. A page ends with a cursor, the key of its last
row, when there are more rows; the next read takes the rows up to the cursor, drops the first of
them, and may find other rows than the read before.

* `Page`, `Reaches`, `Returns` : a page, the reads of a traversal, and the rows they return
* `after`, `reader` : the rows behind a cursor, and the read of a page of them
* `Steady`, `Skips` : a row there at every read, and the row a read drops in place of its cursor's
* `returns_exists`, `returns_sorted` : a traversal ends, with rows in order
* **`lossless_iff`** : a traversal returns every steady row exactly where it skips none
-/

set_option autoImplicit false

namespace Paging

variable {ρ ι κ : Type}

/-- The items of a page, and the cursor of the next one. -/
structure Page (ρ ι : Type) where
  items : List ρ
  nextCursor : Option ι

/-- The reads of a traversal, each with the cursor it is made with. -/
inductive Reaches (read : Nat → Option ι → Page ρ ι) : Nat → Option ι → Prop
  | first : Reaches read 0 none
  | next {n : Nat} {cursor : Option ι} {c : ι} : Reaches read n cursor →
      (read n cursor).nextCursor = some c → Reaches read (n + 1) (some c)

/-- The rows that a traversal returns from a read on, to its last page. -/
inductive Returns (read : Nat → Option ι → Page ρ ι) : Nat → Option ι → List ρ → Prop
  | last {n : Nat} {cursor : Option ι} : (read n cursor).nextCursor = none →
      Returns read n cursor (read n cursor).items
  | next {n : Nat} {cursor : Option ι} {c : ι} {rest : List ρ} :
      (read n cursor).nextCursor = some c → Returns read (n + 1) (some c) rest →
      Returns read n cursor ((read n cursor).items ++ rest)

/-- The first rows of a list, and the last of them as a cursor where there are more. -/
def cut (id : ρ → ι) (take : Nat) (l : List ρ) : Page ρ ι where
  items := l.take take
  nextCursor := if take < l.length then (l.take take).getLast?.map id else none

variable [LinearOrder κ] {key : ρ → κ} {matching : Nat → List ρ} {take n m : Nat} {c k : κ}
  {cursor : Option κ} {rows rest : List ρ} {row : ρ}

/-- The rows behind a cursor: those up to it, without the first. -/
def after (key : ρ → κ) (l : List ρ) : Option κ → List ρ
  | none => l
  | some c => (l.filter fun row => key row ≤ c).drop 1

/-- The read of a page. -/
def reader (key : ρ → κ) (matching : Nat → List ρ) (take n : Nat) (cursor : Option κ) : Page ρ κ :=
  cut key take (after key (matching n) cursor)

/-- Rows from the largest key down. -/
abbrev Sorted (key : ρ → κ) (l : List ρ) : Prop := l.Pairwise fun a b => key b < key a

/-- What a traversal reads: at every read the rows there in order, none older than the first read's
and not among them. -/
structure Reads (key : ρ → κ) (matching : Nat → List ρ) (keys : Finset κ) : Prop where
  sorted : ∀ n, Sorted key (matching n)
  first : ∀ row ∈ matching 0, key row ∈ keys
  newer : ∀ n, ∀ row ∈ matching n, key row ∉ keys → ∀ k ∈ keys, k < key row

/-- A row is there at every read of the traversal. -/
def Steady (key : ρ → κ) (matching : Nat → List ρ) (take : Nat) (k : κ) : Prop :=
  ∀ n cursor, Reaches (reader key matching take) n cursor → ∃ row ∈ matching n, key row = k

/-- A read with a cursor whose own row is not there drops the first row behind it. -/
def Skips (key : ρ → κ) (l : List ρ) (c k : κ) : Prop :=
  (∀ row ∈ l, key row ≠ c) ∧ (∃ row ∈ l, key row = k) ∧ k < c ∧ ∀ row ∈ l, key row < c → key row ≤ k

/-! ## One page -/

theorem cut_none {id : ρ → ι} {l : List ρ} (htake : 1 ≤ take) (h : (cut id take l).nextCursor = none) :
    (cut id take l).items = l := by
  rw [cut] at h ⊢
  simp only at h ⊢
  split at h
  · rename_i hlt
    rw [Option.map_eq_none_iff, List.getLast?_eq_none_iff, List.take_eq_nil_iff] at h
    rcases h with rfl | rfl
    · exact absurd htake (by decide)
    · exact List.take_nil
  · rename_i hle
    exact List.take_of_length_le (Nat.not_lt.mp hle)

theorem cut_some {id : ρ → ι} {l : List ρ} {i : ι} (h : (cut id take l).nextCursor = some i) :
    ∃ init row tail, (cut id take l).items = init ++ [row] ∧ id row = i ∧
      l = init ++ row :: tail := by
  rw [cut] at h ⊢
  simp only at h ⊢
  split at h
  · obtain ⟨row, hlast, hid⟩ := Option.map_eq_some_iff.mp h
    obtain ⟨init, hinit⟩ := List.getLast?_eq_some_iff.mp hlast
    have hwhole := List.take_append_drop take l
    rw [hinit, List.append_assoc] at hwhole
    exact ⟨init, row, l.drop take, hinit, hid, hwhole.symm⟩
  · cases h

/-- Two pages cut from the same rows have cursors of the same row, or none. -/
theorem cut_cursors {ι' : Type} (id : ρ → ι) (id' : ρ → ι') (take : Nat) (l : List ρ) :
    ((cut id take l).nextCursor = none ∧ (cut id' take l).nextCursor = none) ∨
      ∃ row ∈ l, (cut id take l).nextCursor = some (id row) ∧
        (cut id' take l).nextCursor = some (id' row) := by
  unfold cut
  split
  · cases hlast : (l.take take).getLast? with
    | none => exact .inl ⟨rfl, rfl⟩
    | some row =>
        exact .inr ⟨row, List.mem_of_mem_take (List.mem_of_getLast? hlast), rfl, rfl⟩
  · exact .inl ⟨rfl, rfl⟩

theorem after_sublist (l : List ρ) (cursor : Option κ) : (after key l cursor).Sublist l := by
  cases cursor with
  | none => exact List.Sublist.refl l
  | some c => exact (List.drop_sublist 1 _).trans List.filter_sublist

theorem after_sorted (h : Sorted key rows) : Sorted key (after key rows cursor) :=
  h.sublist (after_sublist rows cursor)

/-- Rows behind a cursor have smaller keys. -/
theorem after_lt (h : Sorted key rows) (hrow : row ∈ after key rows (some c)) : key row < c := by
  have hsorted : Sorted key (rows.filter fun row => key row ≤ c) := h.sublist List.filter_sublist
  have hall : ∀ row ∈ rows.filter fun row => key row ≤ c, key row ≤ c :=
    fun row hrow => of_decide_eq_true (List.mem_filter.mp hrow).2
  rw [after] at hrow
  cases hlist : rows.filter fun row => key row ≤ c with
  | nil =>
      rw [hlist] at hrow
      cases hrow
  | cons head tail =>
      rw [hlist] at hrow hsorted hall
      exact lt_of_lt_of_le ((List.pairwise_cons.mp hsorted).1 row hrow)
        (hall head List.mem_cons_self)

/-- A row below the cursor is behind it, or the one that is skipped. -/
theorem mem_after (h : Sorted key rows) (hrow : row ∈ rows) (hlt : key row < c) :
    row ∈ after key rows (some c) ∨ Skips key rows c (key row) := by
  have hsorted : Sorted key (rows.filter fun row => key row ≤ c) := h.sublist List.filter_sublist
  have hmem : row ∈ rows.filter fun row => key row ≤ c :=
    List.mem_filter.mpr ⟨hrow, decide_eq_true hlt.le⟩
  rw [after]
  cases hlist : rows.filter fun row => key row ≤ c with
  | nil =>
      rw [hlist] at hmem
      cases hmem
  | cons head tail =>
      rw [hlist] at hmem hsorted
      rcases List.mem_cons.mp hmem with rfl | htail
      · -- the first row up to the cursor is below it: the cursor's own is not there
        have hle : ∀ r ∈ rows, key r ≤ c → key r ≤ key row := by
          intro r hr hrc
          have hr' : r ∈ row :: tail := hlist ▸ List.mem_filter.mpr ⟨hr, decide_eq_true hrc⟩
          rcases List.mem_cons.mp hr' with rfl | hr'
          · exact le_rfl
          · exact ((List.pairwise_cons.mp hsorted).1 r hr').le
        exact .inr ⟨fun r hr hrc => absurd (hle r hr hrc.le) (not_le.mpr (hrc ▸ hlt)),
          ⟨row, hrow, rfl⟩, hlt, fun r hr hrc => hle r hr hrc.le⟩
      · exact .inl htail

/-- What is skipped is above everything behind the cursor. -/
theorem after_lt_skipped (h : Sorted key rows) (hskips : Skips key rows c k)
    (hrow : row ∈ after key rows (some c)) : key row < k := by
  obtain ⟨hmissing, ⟨first, hfirst, rfl⟩, hlt, hmax⟩ := hskips
  have hsorted : Sorted key (rows.filter fun row => key row ≤ c) := h.sublist List.filter_sublist
  have hmem : first ∈ rows.filter fun row => key row ≤ c :=
    List.mem_filter.mpr ⟨hfirst, decide_eq_true hlt.le⟩
  rw [after] at hrow
  cases hlist : rows.filter fun row => key row ≤ c with
  | nil =>
      rw [hlist] at hmem
      cases hmem
  | cons head tail =>
      rw [hlist] at hmem hsorted hrow
      obtain ⟨hhead, hheadc⟩ := List.mem_filter.mp (hlist ▸ List.mem_cons_self :
        head ∈ rows.filter fun row => key row ≤ c)
      have hbelow : key head < c := lt_of_le_of_ne (of_decide_eq_true hheadc) (hmissing head hhead)
      exact lt_of_lt_of_le ((List.pairwise_cons.mp hsorted).1 row hrow) (hmax head hhead hbelow)

/-! ## The whole traversal -/

section Traversal

variable {keys : Finset κ} (h : Reads key matching keys) (htake : 1 ≤ take)

include h

/-- The next cursor is the key of a row behind this one. -/
theorem next_row (hnext : (reader key matching take n cursor).nextCursor = some c) :
    ∃ row ∈ after key (matching n) cursor, key row = c ∧
      (∀ r ∈ (reader key matching take n cursor).items, c ≤ key r) ∧
        ∀ r ∈ after key (matching n) cursor, key r < c ∨
          r ∈ (reader key matching take n cursor).items := by
  obtain ⟨init, row, tail, hitems, rfl, hlist⟩ := cut_some hnext
  have hsorted : Sorted key (init ++ row :: tail) := hlist ▸ after_sorted (h.sorted n)
  obtain ⟨-, hrow, hcross⟩ := List.pairwise_append.mp hsorted
  refine ⟨row, by rw [hlist]; simp, rfl, fun r hr => ?_, fun r hr => ?_⟩
  · rcases List.mem_append.mp (hitems ▸ hr : r ∈ init ++ [row]) with hr | hr
    · exact (hcross r hr row List.mem_cons_self).le
    · rw [List.mem_singleton.mp hr]
  · rw [hlist] at hr
    rcases List.mem_append.mp hr with hr | hr
    · exact .inr (hitems ▸ List.mem_append_left _ hr)
    · rcases List.mem_cons.mp hr with rfl | hr
      · exact .inr (hitems ▸ List.mem_append_right _ List.mem_cons_self)
      · exact .inl ((List.pairwise_cons.mp hrow).1 r hr)

theorem after_keys (hfirst : cursor = none → n = 0) (hcursor : ∀ c, cursor = some c → c ∈ keys)
    (hrow : row ∈ after key (matching n) cursor) : key row ∈ keys := by
  cases cursor with
  | none =>
      obtain rfl := hfirst rfl
      exact h.first row hrow
  | some c =>
      by_contra hnew
      have hmem := (after_sublist (matching n) (some c)).subset hrow
      exact lt_asymm (after_lt (h.sorted n) hrow) (h.newer n row hmem hnew c (hcursor c rfl))

theorem reaches_keys (hreach : Reaches (reader key matching take) n cursor) :
    (cursor = none → n = 0) ∧ ∀ c, cursor = some c → c ∈ keys := by
  induction hreach with
  | first => exact ⟨fun _ => rfl, fun c hc => by cases hc⟩
  | next _ hnext ih =>
      obtain ⟨row, hrow, rfl, -⟩ := next_row h hnext
      refine ⟨fun hc => (by cases hc), fun c hc => ?_⟩
      cases hc
      exact after_keys h ih.1 ih.2 hrow

/-- The next cursor is below this one. -/
theorem next_below (hnext : (reader key matching take n cursor).nextCursor = some c) (k : κ)
    (hcursor : cursor = some k) : c < k := by
  obtain ⟨row, hrow, rfl, -⟩ := next_row h hnext
  subst hcursor
  exact after_lt (h.sorted n) hrow

/-- **A traversal ends.** -/
theorem returns_exists (hreach : Reaches (reader key matching take) n cursor) :
    ∃ rows, Returns (reader key matching take) n cursor rows := by
  classical
  -- the keys below the cursor get fewer
  generalize hleft : (keys.filter fun k => ∀ c, cursor = some c → k < c).card = left
  induction left using Nat.strongRecOn generalizing n cursor with
  | ind left ih =>
      cases hnext : (reader key matching take n cursor).nextCursor with
      | none => exact ⟨_, .last hnext⟩
      | some c =>
          have hreach' := Reaches.next hreach hnext
          have hc : c ∈ keys := (reaches_keys h hreach').2 c rfl
          have hbelow := next_below h hnext
          have hfewer : (keys.filter fun k => ∀ c', some c = some c' → k < c').card < left := by
            rw [← hleft]
            refine Finset.card_lt_card ⟨fun k hk => ?_, fun hsub => ?_⟩
            · obtain ⟨hk, hlt⟩ := Finset.mem_filter.mp hk
              exact Finset.mem_filter.mpr
                ⟨hk, fun c' hc' => lt_trans (hlt c rfl) (hbelow c' hc')⟩
            · have hmem := hsub (Finset.mem_filter.mpr ⟨hc, hbelow⟩)
              exact lt_irrefl c ((Finset.mem_filter.mp hmem).2 c rfl)
          obtain ⟨rest, hrest⟩ := ih _ hfewer hreach' rfl
          exact ⟨_, .next hnext hrest⟩

theorem returns_below (hreturns : Returns (reader key matching take) n cursor rows) :
    ∀ c, cursor = some c → ∀ row ∈ rows, key row < c := by
  induction hreturns with
  | last _ =>
      rintro c rfl row hrow
      exact after_lt (h.sorted _) (List.mem_of_mem_take hrow)
  | next hnext _ ih =>
      rintro c rfl row hrow
      rcases List.mem_append.mp hrow with hrow | hrow
      · exact after_lt (h.sorted _) (List.mem_of_mem_take hrow)
      · exact lt_trans (ih _ rfl row hrow) (next_below h hnext c rfl)

/-- **Rows are returned** in order, none twice. -/
theorem returns_sorted (hreturns : Returns (reader key matching take) n cursor rows) :
    Sorted key rows := by
  induction hreturns with
  | last _ => exact (after_sorted (h.sorted _)).sublist (List.take_sublist _ _)
  | next hnext hrest ih =>
      obtain ⟨-, -, -, hitems, -⟩ := next_row h hnext
      refine List.pairwise_append.mpr
        ⟨(after_sorted (h.sorted _)).sublist (List.take_sublist _ _), ih, fun a ha b hb => ?_⟩
      exact lt_of_lt_of_le (returns_below h hrest _ rfl b hb) (hitems a ha)

/-- What a read skips is not among the rows it leads to. -/
theorem returns_below_skipped (hskips : Skips key (matching n) c k)
    (hreturns : Returns (reader key matching take) n (some c) rows) : ∀ row ∈ rows, key row < k := by
  intro row hrow
  cases hreturns with
  | last _ => exact after_lt_skipped (h.sorted n) hskips (List.mem_of_mem_take hrow)
  | next hnext hrest =>
      rcases List.mem_append.mp hrow with hrow | hrow
      · exact after_lt_skipped (h.sorted n) hskips (List.mem_of_mem_take hrow)
      · obtain ⟨last, hlast, hkey, -⟩ := next_row h hnext
        have hbelow := returns_below h hrest _ rfl row hrow
        exact lt_trans hbelow (hkey ▸ after_lt_skipped (h.sorted n) hskips hlast)

/-- A traversal, cut at one of its reads. -/
theorem returns_split (hreturns : Returns (reader key matching take) 0 none rows)
    (hreach : Reaches (reader key matching take) n cursor) :
    ∃ front back, rows = front ++ back ∧ Returns (reader key matching take) n cursor back ∧
      (cursor = none → front = []) ∧ ∀ c, cursor = some c → ∀ row ∈ front, c ≤ key row := by
  induction hreach with
  | first => exact ⟨[], rows, rfl, hreturns, fun _ => rfl, fun c hc => by cases hc⟩
  | @next n cursor c _ hnext ih =>
      obtain ⟨front, back, rfl, hback, hnone, hfront⟩ := ih
      obtain ⟨-, -, -, hitems, -⟩ := next_row h hnext
      cases hback with
      | last hlast =>
          rw [hnext] at hlast
          cases hlast
      | @next _ _ c' rest hnext' hrest =>
          obtain rfl : c = c' := Option.some.inj (hnext.symm.trans hnext')
          refine ⟨front ++ (reader key matching take n cursor).items, rest,
            (List.append_assoc _ _ _).symm, hrest, fun hc => (by cases hc), fun c' hc row hrow => ?_⟩
          cases hc
          rcases List.mem_append.mp hrow with hold | hitem
          · cases cursor with
            | none =>
                rw [hnone rfl] at hold
                cases hold
            | some c₀ => exact (next_below h hnext c₀ rfl).le.trans (hfront c₀ rfl row hold)
          · exact hitems row hitem

include htake

/-- Where no steady row is skipped, all of them are returned. -/
theorem mem_returns (hskips : ∀ n c k, Reaches (reader key matching take) n (some c) →
      Skips key (matching n) c k → ¬ Steady key matching take k)
    (hsteady : Steady key matching take k)
    (hreturns : Returns (reader key matching take) n cursor rows)
    (hreach : Reaches (reader key matching take) n cursor)
    (hbelow : ∀ c, cursor = some c → k < c) : k ∈ rows.map key := by
  have hafter : ∀ {n cursor}, Reaches (reader key matching take) n cursor →
      (∀ c, cursor = some c → k < c) → ∃ row ∈ after key (matching n) cursor, key row = k := by
    intro n cursor hreach hbelow
    obtain ⟨row, hrow, rfl⟩ := hsteady n cursor hreach
    cases cursor with
    | none => exact ⟨row, hrow, rfl⟩
    | some c =>
        rcases mem_after (h.sorted n) hrow (hbelow c rfl) with hrow | hskipped
        · exact ⟨row, hrow, rfl⟩
        · exact absurd hsteady (hskips n c _ hreach hskipped)
  induction hreturns with
  | last hlast =>
      obtain ⟨row, hrow, rfl⟩ := hafter hreach hbelow
      rw [reader, cut_none htake hlast]
      exact List.mem_map_of_mem hrow
  | next hnext _ ih =>
      obtain ⟨row, hrow, rfl⟩ := hafter hreach hbelow
      obtain ⟨-, -, -, -, hrest⟩ := next_row h hnext
      rw [List.map_append, List.mem_append]
      rcases hrest row hrow with hlt | hitem
      · exact .inr (ih (.next hreach hnext) fun c hc => by cases hc; exact hlt)
      · exact .inl (List.mem_map_of_mem hitem)

/-- **A traversal returns every steady row**, in order and once, exactly where no read skips one. -/
theorem lossless_iff : (∃ rows, Returns (reader key matching take) 0 none rows ∧ Sorted key rows ∧
      ∀ k, Steady key matching take k → k ∈ rows.map key) ↔
    ∀ n c k, Reaches (reader key matching take) n (some c) → Skips key (matching n) c k →
      ¬ Steady key matching take k := by
  constructor
  · rintro ⟨rows, hreturns, -, hall⟩ n c k hreach hskips hsteady
    obtain ⟨front, back, rfl, hback, -, hfront⟩ := returns_split h hreturns hreach
    obtain ⟨row, hrow, rfl⟩ := List.mem_map.mp (hall k hsteady)
    rcases List.mem_append.mp hrow with hrow | hrow
    · exact absurd (hfront c rfl row hrow) (not_le.mpr hskips.2.2.1)
    · exact lt_irrefl _ (returns_below_skipped h hskips hback row hrow)
  · intro hskips
    obtain ⟨rows, hreturns⟩ := returns_exists h .first
    exact ⟨rows, hreturns, returns_sorted h hreturns, fun k hsteady =>
      mem_returns h htake hskips hsteady hreturns .first fun c hc => by cases hc⟩

end Traversal

end Paging
