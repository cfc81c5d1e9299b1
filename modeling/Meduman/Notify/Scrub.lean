import Meduman.Model.Notifications

/-!
# What is left of a secret

A provider's text is clipped, then the code is replaced, then the access token. Each character is
followed to where it ends up.

* `Occurs`, `Hit` : the occurrences in the whole text, and the characters that belong to one
* `traced`, `Survives` : the scrubbed text with the places its characters come from
* `Cut` : a clip cut into whole secrets and characters of none
* **`scrub_clean`** : nothing of a secret survives exactly if the clip can be cut
* `scrub_leaks` : a token that contains the code
-/

set_option autoImplicit false

namespace Meduman.Notify

open Text

/-! ## Following the characters -/

/-- `s` occurs at place `i`. -/
def Occurs (text s : Units) (i : Nat) : Prop := s <+: text.drop i

instance (text s : Units) (i : Nat) : Decidable (Occurs text s i) :=
  inferInstanceAs (Decidable (_ <+: _))

/-- The character at place `p` belongs to an occurrence of the code or of the token. -/
def Hit (token text code : Units) (p : Nat) : Prop :=
  ∃ s, (s = code ∨ s = token) ∧ ∃ i, i ≤ p ∧ p < i + s.length ∧ Occurs text s i

/-- The characters of a text from place `i` on, each with its place. -/
def placed (i : Nat) (text : Units) : List (UInt16 × Option Nat) :=
  (text.zipIdx i).map fun e => (e.1, some e.2)

/-- The marker comes from nowhere. -/
def inserted : List (UInt16 × Option Nat) := redacted.map fun c => (c, none)

/-- The part of a text that is surfaced. -/
def clip (text : Units) : Units := text.take maxErrorText

/-- What the replacement of the code leaves, from place `i` of the clip on. -/
def coded (text code : Units) (i : Nat) : List (UInt16 × Option Nat) :=
  replaceAll code inserted Prod.fst (placed i ((clip text).drop i))

/-- The scrubbed text, from place `i` of the clip on. -/
def tracedFrom (token text code : Units) (i : Nat) : List (UInt16 × Option Nat) :=
  replaceAll token inserted Prod.fst (coded text code i)

/-- The scrubbed text, each character with the place it comes from. -/
def traced (token text code : Units) : List (UInt16 × Option Nat) := tracedFrom token text code 0

/-- The character at this place is in the scrubbed text. -/
def Survives (token text code : Units) (p : Nat) : Prop :=
  ∃ c, (c, some p) ∈ traced token text code

variable {token text code s : Units} {i p : Nat}

theorem map_placed (i : Nat) (text : Units) : (placed i text).map Prod.fst = text := by
  rw [placed, List.map_map]
  exact List.zipIdx_map_fst i text

theorem map_inserted : inserted.map Prod.fst = redacted := by
  rw [inserted, List.map_map]
  exact List.map_id _

/-- **The traced text** is the scrubbed one. -/
theorem map_traced (hcode : code ≠ []) (htoken : token ≠ []) :
    (traced token text code).map Prod.fst = scrub token text code := by
  have hreplace : ∀ {s : Units} (l : List (UInt16 × Option Nat)), s ≠ [] →
      (replaceAll s inserted Prod.fst l).map Prod.fst = replaceSecret (l.map Prod.fst) s :=
    fun {s} l hs => by
      have hempty : s.isEmpty = false := by simpa using hs
      have hmap : (replaceAll s inserted Prod.fst l).map Prod.fst =
          replaceAll s (inserted.map Prod.fst) id (l.map Prod.fst) :=
        map_replaceAll (f := Prod.fst) (fun b => (rfl : id b.1 = b.1)) l
      rw [hmap, map_inserted, replaceSecret, hempty, if_neg Bool.false_ne_true, intercalate_split]
  rw [traced, tracedFrom, hreplace _ htoken, coded, hreplace _ hcode, map_placed, scrub,
    List.drop_zero, clip]

/-! ## Cutting the clip -/

/-- From place `i` on the clip can be cut into whole codes, whole tokens inside which no code begins, and
characters that belong to no secret. -/
inductive Cut (token text code : Units) : Nat → Prop
  | finish {i : Nat} : (clip text).length ≤ i → Cut token text code i
  | plain {i : Nat} : i < (clip text).length → ¬ Hit token text code i →
      Cut token text code (i + 1) → Cut token text code i
  | code {i : Nat} : Occurs (clip text) code i → Cut token text code (i + code.length) →
      Cut token text code i
  | token {i : Nat} : Occurs (clip text) token i →
      (∀ j < token.length, ¬ Occurs (clip text) code (i + j)) →
      Cut token text code (i + token.length) → Cut token text code i

theorem Occurs.clipped (h : Occurs (clip text) s i) : Occurs text s i := by
  rw [Occurs, clip, List.drop_take] at h
  exact List.IsPrefix.trans h (List.take_prefix _ _)

theorem Occurs.fits (h : Occurs (clip text) s i) (hs : s ≠ []) :
    i + s.length ≤ (clip text).length := by
  have hlen := h.length_le
  have hpos := List.length_pos_of_ne_nil hs
  rw [List.length_drop] at hlen
  omega

theorem placed_append (i : Nat) (l₁ l₂ : Units) :
    placed i (l₁ ++ l₂) = placed i l₁ ++ placed (i + l₁.length) l₂ := by
  rw [placed, List.zipIdx_append, List.map_append]
  rfl

theorem length_placed (i : Nat) (l : Units) : (placed i l).length = l.length := by
  rw [placed, List.length_map, List.length_zipIdx]

/-- The clip from place `i` on, and from `k` places later on. -/
theorem placed_drop (text : Units) (i k : Nat) (hk : i + k ≤ text.length) :
    placed i (text.drop i) =
      placed i ((text.drop i).take k) ++ placed (i + k) (text.drop (i + k)) := by
  have hlen : ((text.drop i).take k).length = k := by
    rw [List.length_take, List.length_drop]
    omega
  have happend := placed_append i ((text.drop i).take k) ((text.drop i).drop k)
  rwa [List.take_append_drop, hlen, List.drop_drop] at happend

theorem drop_placed (i k : Nat) (l : Units) : (placed i l).drop k = placed (i + k) (l.drop k) := by
  induction k generalizing i l with
  | zero => rfl
  | succ k ih =>
      cases l with
      | nil => rfl
      | cons c l =>
          rw [List.drop_succ_cons, show i + (k + 1) = i + 1 + k by omega, ← ih]
          rfl

/-- At a code. -/
theorem coded_hit (hcode : code ≠ []) (h : Occurs (clip text) code i) :
    coded text code i = inserted ++ coded text code (i + code.length) := by
  rw [coded, replaceAll_hit hcode (by rwa [map_placed]), drop_placed, List.drop_drop]
  rfl

/-- Where no code begins. -/
theorem coded_plain {k : Nat} (hk : i + k ≤ (clip text).length)
    (h : ∀ j < k, ¬ Occurs (clip text) code (i + j)) :
    coded text code i =
      placed i (((clip text).drop i).take k) ++ coded text code (i + k) := by
  rw [coded, coded, placed_drop (clip text) i k hk]
  refine replaceAll_append fun j hj => ?_
  rw [length_placed, List.length_take] at hj
  rw [← placed_drop (clip text) i k hk, drop_placed, map_placed, List.drop_drop]
  exact h j (by omega)

theorem coded_end (h : (clip text).length ≤ i) : coded text code i = [] := by
  rw [coded, List.drop_eq_nil_of_le h]
  rfl

theorem redacted_ne_nil : redacted ≠ [] := by decide

/-- The marker stays. -/
theorem replaced_inserted (htoken : token ≠ []) (hapart : Apart token redacted)
    (l : List (UInt16 × Option Nat)) : replaceAll token inserted Prod.fst (inserted ++ l) =
      inserted ++ replaceAll token inserted Prod.fst l := by
  refine replaceAll_append fun j hj hpre => ?_
  have hlen : inserted.length = redacted.length := List.length_map _
  rw [List.map_drop, List.map_append, map_inserted] at hpre
  have hpos := List.length_pos_of_ne_nil htoken
  rcases hapart [] _ j hpre with hbefore | hafter
  · rw [List.length_nil] at hbefore
    omega
  · rw [List.length_nil, ← hlen] at hafter
    omega

/-- A token that is found after the codes were replaced was there before, and no code began inside. -/
theorem token_found (hcode : code ≠ []) (hapart : Apart token redacted)
    (h : token <+: (coded text code i).map Prod.fst) :
    Occurs (clip text) token i ∧ ∀ j < token.length, ¬ Occurs (clip text) code (i + j) := by
  have hclear : ∀ j < token.length, ¬ Occurs (clip text) code (i + j) := by
    intro j
    -- before the first code, and across the marker the token does not reach
    induction j using Nat.strongRecOn with
    | _ j ih =>
        intro hj hoccurs
        have hfits := hoccurs.fits hcode
        have hplain := coded_plain (k := j) (by omega) fun k hk => ih k hk (by omega)
        rw [hplain, coded_hit hcode hoccurs, List.map_append, List.map_append, map_placed,
          map_inserted, ← List.append_assoc] at h
        have hlen : (((clip text).drop i).take j).length = j := by
          rw [List.length_take, List.length_drop]
          omega
        have hpos := List.length_pos_of_ne_nil redacted_ne_nil
        rcases hapart _ _ 0 h with hbefore | hafter
        · omega
        · omega
  refine ⟨?_, hclear⟩
  rcases Nat.le_total (i + token.length) (clip text).length with hroom | hend
  · rw [coded_plain hroom hclear, List.map_append, map_placed] at h
    have hlen : token.length = (((clip text).drop i).take token.length).length := by
      rw [List.length_take, List.length_drop]
      omega
    exact (List.prefix_of_prefix_length_le h (List.prefix_append _ _) (Nat.le_of_eq hlen)).trans
      (List.take_prefix _ _)
  · rcases Nat.le_total (clip text).length i with hover | hi
    · rw [coded_end hover] at h
      rw [Occurs, List.drop_eq_nil_of_le hover]
      exact h
    · have hplain := coded_plain (k := (clip text).length - i) (by omega) fun j hj =>
        hclear j (by omega)
      rw [hplain, coded_end (by omega), List.append_nil, map_placed] at h
      exact List.IsPrefix.trans h (List.take_prefix _ _)

/-! ## What survives -/

/-- At a code. -/
theorem traced_code (hcode : code ≠ []) (htoken : token ≠ []) (hapart : Apart token redacted)
    (h : Occurs (clip text) code i) : tracedFrom token text code i =
      inserted ++ tracedFrom token text code (i + code.length) := by
  rw [tracedFrom, coded_hit hcode h, replaced_inserted htoken hapart]
  rfl

/-- At a token inside which no code begins. -/
theorem traced_token (htoken : token ≠ []) (h : Occurs (clip text) token i)
    (hclear : ∀ j < token.length, ¬ Occurs (clip text) code (i + j)) :
    tracedFrom token text code i =
      inserted ++ tracedFrom token text code (i + token.length) := by
  have hfits := h.fits htoken
  have hplain := coded_plain hfits hclear
  have hlen : (placed i (((clip text).drop i).take token.length)).length = token.length := by
    rw [length_placed, List.length_take, List.length_drop]
    omega
  have hpre : token <+: (coded text code i).map Prod.fst := by
    rw [hplain, List.map_append, map_placed, ← List.prefix_iff_eq_take.mp h]
    exact List.prefix_append _ _
  rw [tracedFrom, replaceAll_hit htoken hpre, hplain, List.drop_left' hlen]
  rfl

/-- At a character where neither is found. -/
theorem traced_plain (hi : i < (clip text).length) (hcode : ¬ Occurs (clip text) code i)
    (htoken : ¬ token <+: (coded text code i).map Prod.fst) :
    tracedFrom token text code i =
      ((clip text)[i], some i) :: tracedFrom token text code (i + 1) := by
  have hplain : coded text code i = ((clip text)[i], some i) :: coded text code (i + 1) := by
    have hone := coded_plain (k := 1) hi fun j hj => by
      obtain rfl : j = 0 := by omega
      exact hcode
    rw [hone, List.drop_eq_getElem_cons hi]
    rfl
  rw [tracedFrom, hplain]
  rw [hplain] at htoken
  exact replaceAll_miss htoken

/-- A character that is left comes from the clip. -/
theorem place_lt {c : UInt16} (h : (c, some p) ∈ tracedFrom token text code i) :
    p < i + ((clip text).drop i).length := by
  have hnone : ((c, some p) : UInt16 × Option Nat) ∉ inserted := fun hc => by
    obtain ⟨_, -, heq⟩ := List.mem_map.mp hc
    cases heq
  have hcoded := (mem_replaceAll h).resolve_left hnone
  obtain ⟨e, he, heq⟩ := List.mem_map.mp ((mem_replaceAll hcoded).resolve_left hnone)
  cases heq
  exact List.snd_lt_add_of_mem_zipIdx he

/-- A clip that can be cut keeps exactly the characters of no secret. -/
theorem Cut.survivors (hcode : code ≠ []) (htoken : token ≠ []) (hapart : Apart token redacted)
    (h : Cut token text code i) : (∃ c, (c, some p) ∈ tracedFrom token text code i) ↔
      i ≤ p ∧ p < (clip text).length ∧ ¬ Hit token text code p := by
  have hnone : ∀ c, ((c, some p) : UInt16 × Option Nat) ∉ inserted := fun c hc => by
    obtain ⟨_, -, heq⟩ := List.mem_map.mp hc
    cases heq
  induction h with
  | finish hend =>
      rw [tracedFrom, coded_end hend]
      simp only [replaceAll_nil, List.not_mem_nil, exists_false, false_iff]
      omega
  | @plain i hi hno _ ih =>
      have hfree : ∀ s, (s = code ∨ s = token) → s ≠ [] → ¬ Occurs (clip text) s i :=
        fun s hs hne hoccurs => hno ⟨s, hs, i, Nat.le_refl i,
          Nat.lt_add_of_pos_right (List.length_pos_of_ne_nil hne), hoccurs.clipped⟩
      rw [traced_plain hi (hfree code (.inl rfl) hcode) fun hpre =>
        hfree token (.inr rfl) htoken (token_found hcode hapart hpre).1]
      simp only [List.mem_cons, Prod.mk.injEq, Option.some.injEq, exists_or, ih]
      constructor
      · rintro (⟨c, -, rfl⟩ | ⟨hp, hrest⟩)
        · exact ⟨Nat.le_refl _, hi, hno⟩
        · exact ⟨Nat.le_of_succ_le hp, hrest⟩
      · rintro ⟨hp, hrest⟩
        rcases Nat.eq_or_lt_of_le hp with rfl | hlt
        · exact .inl ⟨_, rfl, rfl⟩
        · exact .inr ⟨hlt, hrest⟩
  | @code i hoccurs _ ih =>
      rw [traced_code hcode htoken hapart hoccurs]
      simp only [List.mem_append, hnone, false_or, ih]
      refine ⟨fun ⟨hp, hrest⟩ => ⟨by omega, hrest⟩, fun ⟨hp, hlt, hno⟩ => ⟨?_, hlt, hno⟩⟩
      by_contra hin
      exact hno ⟨code, .inl rfl, i, hp, by omega, hoccurs.clipped⟩
  | @token i hoccurs hclear _ ih =>
      rw [traced_token htoken hoccurs hclear]
      simp only [List.mem_append, hnone, false_or, ih]
      refine ⟨fun ⟨hp, hrest⟩ => ⟨by omega, hrest⟩, fun ⟨hp, hlt, hno⟩ => ⟨?_, hlt, hno⟩⟩
      by_contra hin
      exact hno ⟨token, .inr rfl, i, hp, by omega, hoccurs.clipped⟩

/-- A clip of which nothing of a secret survives can be cut. -/
theorem cut_of_clean (hcode : code ≠ []) (htoken : token ≠ []) (hapart : Apart token redacted)
    (n : Nat) (hn : (clip text).length - i ≤ n)
    (h : ∀ p c, (c, some p) ∈ tracedFrom token text code i → ¬ Hit token text code p) :
    Cut token text code i := by
  induction n generalizing i with
  | zero => exact .finish (by omega)
  | succ n ih =>
      by_cases hi : (clip text).length ≤ i
      · exact .finish hi
      have hcodepos := List.length_pos_of_ne_nil hcode
      have htokenpos := List.length_pos_of_ne_nil htoken
      by_cases hoccurs : Occurs (clip text) code i
      · refine .code hoccurs (ih (by omega) fun p c hp => h p c ?_)
        rw [traced_code hcode htoken hapart hoccurs]
        exact List.mem_append_right _ hp
      by_cases hpre : token <+: (coded text code i).map Prod.fst
      · obtain ⟨hfound, hclear⟩ := token_found hcode hapart hpre
        refine .token hfound hclear (ih (by omega) fun p c hp => h p c ?_)
        rw [traced_token htoken hfound hclear]
        exact List.mem_append_right _ hp
      · have hplain := traced_plain (Nat.not_le.mp hi) hoccurs hpre
        refine .plain (Nat.not_le.mp hi) (h i (clip text)[i] ?_) (ih (by omega) fun p c hp => h p c ?_)
        · rw [hplain]
          exact List.mem_cons_self
        · rw [hplain]
          exact List.mem_cons_of_mem _ hp

/-- **Nothing of a secret survives**, and everything else of the clip does, exactly if the clip can be cut
into whole codes, whole tokens inside which no code begins, and characters of no secret. -/
theorem scrub_clean (token text code : Units) (hcode : code ≠ []) (htoken : token ≠ [])
    (hapart : Apart token redacted) :
    (traced token text code).map Prod.fst = scrub token text code ∧
    ((∀ p < (clip text).length, Survives token text code p ↔ ¬ Hit token text code p) ↔
      Cut token text code 0) := by
  refine ⟨map_traced hcode htoken, fun hclean => ?_, fun hcut p hp => ?_⟩
  · refine cut_of_clean hcode htoken hapart _ (Nat.le_refl _) fun p c hp => ?_
    refine (hclean p ?_).mp ⟨c, hp⟩
    simpa using place_lt hp
  · rw [Survives, traced, hcut.survivors hcode htoken hapart]
    exact ⟨fun h => h.2.2, fun h => ⟨Nat.zero_le p, hp, h⟩⟩

namespace Demo

/-- An access token the one-time code occurs in. -/
def accessToken : Units := units "BX123456Y"

def otp : Units := units "123456"

/-- The provider quotes the token. -/
def quoted : Units := units "(#190) BX123456Y"

end Demo

/-- Two texts that share no character, decided. -/
theorem apart_of_all {s marker : Units} (hs : s ≠ []) (hmarker : marker ≠ [])
    (hdisjoint : (s.all fun c => !marker.contains c) = true) : Apart s marker := by
  refine apart_of_disjoint hs hmarker fun c hc hmem => ?_
  have hno := List.all_eq_true.mp hdisjoint c hc
  rw [List.contains_iff_mem.mpr hmem] at hno
  cases hno

set_option maxRecDepth 4000 in
/-- **A secret that leaks.** The code is replaced inside the token, whose other characters stay. -/
theorem scrub_leaks :
    scrub Demo.accessToken Demo.quoted Demo.otp = units "(#190) BX[redacted]Y" ∧
    Apart Demo.accessToken redacted ∧ Apart Demo.otp redacted ∧
    Hit Demo.accessToken Demo.quoted Demo.otp 7 ∧
    Survives Demo.accessToken Demo.quoted Demo.otp 7 :=
  ⟨by decide, apart_of_all (by decide) (by decide) (by decide),
    apart_of_all (by decide) (by decide) (by decide),
    ⟨Demo.accessToken, .inr rfl, 7, by decide, by decide, by decide⟩, 66, by decide⟩

set_option maxRecDepth 4000 in
/-- The code, and the token after it. -/
theorem scrub_clean_apart :
    (Survives (units "BXY") (units "123456BXY") (units "123456") 0 ↔
      ¬ Hit (units "BXY") (units "123456BXY") (units "123456") 0) ∧
    (Survives (units "BXY") (units "123456BXY") (units "123456") 6 ↔
      ¬ Hit (units "BXY") (units "123456BXY") (units "123456") 6) := by
  have hclean := (scrub_clean (units "BXY") (units "123456BXY") (units "123456") (by decide)
    (by decide) (apart_of_all (by decide) (by decide) (by decide))).2.mpr
    (.code (by decide) (.token (by decide) (by decide) (.finish (by decide))))
  exact ⟨hclean 0 (by decide), hclean 6 (by decide)⟩

end Meduman.Notify
