import Mathlib.Data.List.Basic

/-!
# Replacing every occurrence of a text

A text is split at the occurrences of another, from left to right and without overlap, and joined with
a marker. What is replaced is read off a key of each character, so that characters can carry where
they come from.

* `split` : the parts between the occurrences
* `replaceAll` : every occurrence replaced, in one scan
* **`intercalate_split`** : the scan is the split, joined
* `replaceAll_hit`, `replaceAll_miss`, `replaceAll_append` : what a scan does at a character
* `map_replaceAll` : what characters carry does not matter
* `Apart` : a text that cannot share a character with the marker
* `split_append`, `split_whole`, `split_intercalate` : the parts of a text that was joined
* `not_pair_prefix` : no separator follows another in a text joined from parts that are not empty
-/

set_option autoImplicit false

namespace Text

variable {α β γ : Type} [DecidableEq α]

/-- The parts between the occurrences of `s`, when the next `n` characters still belong to one. -/
def splitAux (s : List α) : Nat → List α → List (List α)
  | _, [] => [[]]
  | n + 1, _ :: l => splitAux s n l
  | 0, c :: l =>
      if s.isPrefixOf (c :: l) then [] :: splitAux s (s.length - 1) l
      else match splitAux s 0 l with
        | [] => [[c]]
        | part :: parts => (c :: part) :: parts

/-- The parts between the occurrences of a text that is not empty. -/
def split (s l : List α) : List (List α) := splitAux s 0 l

/-- Replace the occurrences of `s`, when the next `n` characters still belong to one. -/
def replaceAux (s : List α) (marker : List β) (key : β → α) : Nat → List β → List β
  | _, [] => []
  | n + 1, _ :: l => replaceAux s marker key n l
  | 0, c :: l =>
      if s.isPrefixOf ((c :: l).map key) then
        marker ++ replaceAux s marker key (s.length - 1) l
      else c :: replaceAux s marker key 0 l

/-- Replace every occurrence of a text that is not empty. -/
def replaceAll (s : List α) (marker : List β) (key : β → α) (l : List β) : List β :=
  replaceAux s marker key 0 l

theorem splitAux_ne_nil (s : List α) (n : Nat) (l : List α) : splitAux s n l ≠ [] := by
  induction l generalizing n with
  | nil => cases n <;> simp [splitAux]
  | cons c l ih =>
      cases n with
      | succ n => exact ih n
      | zero =>
          rw [splitAux]
          split
          · exact List.cons_ne_nil _ _
          · split <;> exact List.cons_ne_nil _ _

theorem intercalate_splitAux (s marker : List α) (n : Nat) (l : List α) :
    marker.intercalate (splitAux s n l) = replaceAux s marker id n l := by
  induction l generalizing n with
  | nil => cases n <;> rfl
  | cons c l ih =>
      cases n with
      | succ n => exact ih n
      | zero =>
          rw [splitAux, replaceAux, List.map_id]
          split
          · rw [← ih]
            obtain ⟨part, parts, hparts⟩ := List.exists_cons_of_ne_nil
              (splitAux_ne_nil s (s.length - 1) l)
            rw [hparts]
            rfl
          · rw [← ih]
            obtain ⟨part, parts, hparts⟩ := List.exists_cons_of_ne_nil (splitAux_ne_nil s 0 l)
            rw [hparts]
            cases parts <;> rfl

/-- **The scan** is the split, joined with the marker. -/
theorem intercalate_split (s marker l : List α) :
    marker.intercalate (split s l) = replaceAll s marker id l := intercalate_splitAux s marker 0 l

/-! ## What a scan does -/

variable {s : List α} {marker : List β} {key : β → α} {l l₁ l₂ : List β} {c : β}

theorem replaceAux_skip (n : Nat) (l : List β) :
    replaceAux s marker key n l = replaceAll s marker key (l.drop n) := by
  induction l generalizing n with
  | nil => cases n <;> rfl
  | cons c l ih =>
      cases n with
      | zero => rfl
      | succ n => exact ih n

@[simp] theorem replaceAll_nil : replaceAll s marker key [] = [] := rfl

/-- An occurrence is replaced. -/
theorem replaceAll_hit (hs : s ≠ []) (h : s <+: l.map key) :
    replaceAll s marker key l = marker ++ replaceAll s marker key (l.drop s.length) := by
  obtain ⟨a, s, rfl⟩ := List.exists_cons_of_ne_nil hs
  cases l with
  | nil => exact absurd (List.prefix_nil.mp h) (List.cons_ne_nil a s)
  | cons c l =>
      rw [replaceAll, replaceAux, if_pos (List.isPrefixOf_iff_prefix.mpr h), replaceAux_skip]
      rfl

/-- Another character stays. -/
theorem replaceAll_miss (h : ¬ s <+: (c :: l).map key) :
    replaceAll s marker key (c :: l) = c :: replaceAll s marker key l := by
  rw [replaceAll, replaceAux, if_neg (mt List.isPrefixOf_iff_prefix.mp h)]
  rfl

/-- Characters before which no occurrence begins stay. -/
theorem replaceAll_append (h : ∀ i < l₁.length, ¬ s <+: ((l₁ ++ l₂).drop i).map key) :
    replaceAll s marker key (l₁ ++ l₂) = l₁ ++ replaceAll s marker key l₂ := by
  induction l₁ with
  | nil => rfl
  | cons c l₁ ih =>
      have hrest := ih fun i hi => h (i + 1) (Nat.succ_lt_succ hi)
      rw [List.cons_append, List.cons_append, ← hrest]
      exact replaceAll_miss (h 0 (Nat.succ_pos _))

/-- A character left is one of the marker or of the text. -/
theorem mem_replaceAll {b : β} (h : b ∈ replaceAll s marker key l) : b ∈ marker ∨ b ∈ l := by
  suffices haux : ∀ n, b ∈ replaceAux s marker key n l → b ∈ marker ∨ b ∈ l from haux 0 h
  clear h
  induction l with
  | nil => exact fun n h => by cases n <;> cases h
  | cons c l ih =>
      intro n h
      cases n with
      | succ n => exact (ih n h).imp id (List.mem_cons_of_mem c)
      | zero =>
          rw [replaceAux] at h
          split at h
          · rcases List.mem_append.mp h with h | h
            · exact .inl h
            · exact (ih _ h).imp id (List.mem_cons_of_mem c)
          · rcases List.mem_cons.mp h with rfl | h
            · exact .inr List.mem_cons_self
            · exact (ih 0 h).imp id (List.mem_cons_of_mem c)

/-- What characters carry beside their key does not matter. -/
theorem map_replaceAll {f : β → γ} {key' : γ → α} (hf : ∀ b, key' (f b) = key b) (l : List β) :
    (replaceAll s marker key l).map f = replaceAll s (marker.map f) key' (l.map f) := by
  suffices haux : ∀ n, (replaceAux s marker key n l).map f =
      replaceAux s (marker.map f) key' n (l.map f) from haux 0
  induction l with
  | nil => intro n; cases n <;> rfl
  | cons c l ih =>
      intro n
      cases n with
      | succ n => exact ih n
      | zero =>
          have hkeys : (f c :: l.map f).map key' = (c :: l).map key := by
            rw [← List.map_cons, List.map_map]
            exact List.map_congr_left fun b _ => hf b
          show (replaceAux s marker key 0 (c :: l)).map f =
            replaceAux s (marker.map f) key' 0 (f c :: l.map f)
          rw [replaceAux, replaceAux, hkeys]
          split
          · rw [List.map_append, ih]
          · rw [List.map_cons, ih]

/-! ## Markers -/

/-- No occurrence of `s` shares a character with the marker. -/
def Apart (s marker : List α) : Prop := ∀ a b i, s <+: (a ++ marker ++ b).drop i →
  i + s.length ≤ a.length ∨ a.length + marker.length ≤ i

omit [DecidableEq α] in
/-- A text without the characters of the marker. -/
theorem apart_of_disjoint {marker : List α} (hs : s ≠ []) (hmarker : marker ≠ [])
    (hdisjoint : ∀ c ∈ s, c ∉ marker) : Apart s marker := by
  intro a b i hpre
  by_contra hno
  rw [not_or, Nat.not_le, Nat.not_le] at hno
  obtain ⟨hstart, hend⟩ := hno
  have hpos := List.length_pos_of_ne_nil hs
  have hpos' := List.length_pos_of_ne_nil hmarker
  -- the first character the two share
  have hlt : max i a.length - i < s.length := by omega
  have hget := List.prefix_iff_getElem?.mp hpre _ hlt
  rw [List.getElem?_drop, List.append_assoc, List.getElem?_append_right (by omega),
    List.getElem?_append_left (by omega)] at hget
  exact hdisjoint _ (List.getElem_mem hlt) (List.mem_of_getElem? hget)

/-! ## Parts -/

theorem splitAux_skip (s : List α) (n : Nat) (l : List α) :
    splitAux s n l = split s (l.drop n) := by
  induction l generalizing n with
  | nil => cases n <;> rfl
  | cons c l ih =>
      cases n with
      | zero => rfl
      | succ n => exact ih n

/-- A text ends its first part where `s` begins for the first time. -/
theorem split_append {s a b : List α} (hs : s ≠ [])
    (h : ∀ i < a.length, ¬ s <+: (a ++ (s ++ b)).drop i) :
    split s (a ++ (s ++ b)) = a :: split s b := by
  induction a with
  | nil =>
      obtain ⟨c, s, rfl⟩ := List.exists_cons_of_ne_nil hs
      have hpre : (c :: s).isPrefixOf (c :: (s ++ b)) = true :=
        List.isPrefixOf_iff_prefix.mpr (List.prefix_append (c :: s) b)
      show splitAux (c :: s) 0 (c :: (s ++ b)) = [] :: split (c :: s) b
      rw [splitAux, if_pos hpre, splitAux_skip, List.length_cons, Nat.add_sub_cancel,
        List.drop_left]
  | cons c a ih =>
      have hrest := ih fun i hi => h (i + 1) (Nat.succ_lt_succ hi)
      have hfirst : ¬ s.isPrefixOf (c :: (a ++ (s ++ b))) = true :=
        mt List.isPrefixOf_iff_prefix.mp (h 0 (Nat.succ_pos _))
      show splitAux s 0 (c :: (a ++ (s ++ b))) = (c :: a) :: split s b
      rw [splitAux, if_neg hfirst]
      show (match split s (a ++ (s ++ b)) with
        | [] => [[c]]
        | part :: parts => (c :: part) :: parts) = _
      rw [hrest]

/-- A text in which `s` does not occur is one part. -/
theorem split_whole {s l : List α} (h : ¬ s <:+: l) : split s l = [l] := by
  induction l with
  | nil => rfl
  | cons c l ih =>
      have hrest := ih fun hin => h (hin.trans (List.suffix_cons c l).isInfix)
      have hfirst : ¬ s.isPrefixOf (c :: l) = true :=
        fun hpre => h (List.isPrefixOf_iff_prefix.mp hpre).isInfix
      show splitAux s 0 (c :: l) = [c :: l]
      rw [splitAux, if_neg hfirst]
      show (match split s l with
        | [] => [[c]]
        | part :: parts => (c :: part) :: parts) = _
      rw [hrest]

/-- Parts without the separator, joined and split again. -/
theorem split_intercalate {c : α} {parts : List (List α)} (hne : parts ≠ [])
    (h : ∀ p ∈ parts, c ∉ p) : split [c] ([c].intercalate parts) = parts := by
  induction parts with
  | nil => exact absurd rfl hne
  | cons p parts ih =>
      have hp := h p List.mem_cons_self
      cases parts with
      | nil =>
          rw [List.intercalate_singleton]
          exact split_whole fun hin => hp (hin.subset List.mem_cons_self)
      | cons q parts =>
          have hrest := ih (List.cons_ne_nil q parts) fun r hr => h r (List.mem_cons_of_mem p hr)
          rw [List.intercalate_cons_cons, List.append_assoc,
            split_append (List.cons_ne_nil c []), hrest]
          intro i hi hpre
          have hget := List.prefix_iff_getElem?.mp hpre 0 Nat.zero_lt_one
          rw [List.getElem?_drop, Nat.add_zero, List.getElem?_append_left hi] at hget
          exact hp (List.mem_of_getElem? hget)

omit [DecidableEq α] in
/-- No separator follows another in a text joined from parts that are not empty. -/
theorem not_pair_prefix {c : α} {parts : List (List α)} (h : ∀ p ∈ parts, c ∉ p ∧ p ≠ [])
    (rest : List α) : ∀ i < ([c].intercalate parts).length,
      ¬ [c, c] <+: ([c].intercalate parts ++ rest).drop i := by
  induction parts with
  | nil => exact fun i hi => absurd hi (Nat.not_lt_zero i)
  | cons p parts ih =>
      obtain ⟨hp, hpne⟩ := h p List.mem_cons_self
      intro i hi hpre
      have hfirst := List.prefix_iff_getElem?.mp hpre 0 Nat.zero_lt_two
      have hsecond := List.prefix_iff_getElem?.mp hpre 1 Nat.one_lt_two
      rw [List.getElem?_drop] at hfirst hsecond
      cases parts with
      | nil =>
          rw [List.intercalate_singleton] at hi hfirst
          rw [Nat.add_zero, List.getElem?_append_left hi] at hfirst
          exact hp (List.mem_of_getElem? hfirst)
      | cons q parts =>
          obtain ⟨hq, hqne⟩ := h q (List.mem_cons_of_mem p List.mem_cons_self)
          have ih := ih fun r hr => h r (List.mem_cons_of_mem p hr)
          rw [List.intercalate_cons_cons] at hi hpre hfirst hsecond
          simp only [List.append_assoc, List.length_append] at hi hpre hfirst hsecond
          rcases Nat.lt_trichotomy i p.length with hlt | rfl | hgt
          · rw [Nat.add_zero, List.getElem?_append_left hlt] at hfirst
            exact hp (List.mem_of_getElem? hfirst)
          · -- what follows the separator is the first character of the next part
            rw [List.getElem?_append_right (by omega), Nat.add_sub_cancel_left,
              List.getElem?_append_right (by simp), List.length_singleton, Nat.sub_self] at hsecond
            obtain ⟨d, q, rfl⟩ := List.exists_cons_of_ne_nil hqne
            have hdc : d = c := by
              cases parts <;> simpa using hsecond
            exact hq (hdc ▸ List.mem_cons_self)
          · have hdrop : (p ++ ([c] ++ ([c].intercalate (q :: parts) ++ rest))).drop i =
                ([c].intercalate (q :: parts) ++ rest).drop (i - p.length - 1) := by
              rw [List.drop_append, List.drop_of_length_le (Nat.le_of_lt hgt), List.nil_append,
                List.drop_append, List.drop_of_length_le, List.nil_append, List.length_singleton]
              rw [List.length_singleton]
              omega
            rw [hdrop] at hpre
            exact ih (i - p.length - 1) (by simp only [List.length_singleton] at hi; omega) hpre

end Text
