import Mathlib.Algebra.Group.Nat.Defs
import Mathlib.Data.List.Forall2
import Mathlib.Data.List.MinMax
import Mathlib.Data.List.TakeWhile
import Meduman.Model.Ssrf
import Meduman.Text.Digits

/-!
# The addresses the guard refuses

* `Address`, `inBlock`, `Internal` : addresses, blocks of them, and those of an internal range
* `hostname` : an address as the host of a URL
* `expand_whole`, `expand_compressed` : the hextets of every spelling of an IPv6 address
* `Misjudged` : the addresses that a prefix of the spelling gets wrong
* **`guard_exact`** : the guard covers its ranges exactly where the address is not one of them
-/

set_option autoImplicit false

namespace Meduman.Ssrf

open Linking (isSpace)
open Text (mem_toDigits)

/-! ## Numbers, written and read -/

theorem digitValue_digitChar {radix d : Nat} (hd : d < radix) (hradix : radix ≤ 16) :
    digitValue radix d.digitChar = some d := by
  have hvalue : ∀ d < 16, digitValue 16 d.digitChar = some d := by decide
  have hsome := hvalue d (by omega)
  rw [digitValue, Option.filter_eq_some_iff] at hsome ⊢
  exact ⟨hsome.1, decide_eq_true hd⟩

/-- The digits written stand for the number. -/
theorem values_toDigits {b : Nat} (hb : 1 < b) (hb16 : b ≤ 16) (n : Nat) :
    ∃ ds : List Nat, (Nat.toDigits b n).map (digitValue b) = ds.map some ∧ ds ≠ [] ∧
      ds.foldl (fun n d => b * n + d) 0 = n := by
  induction n using Nat.strongRecOn with
  | ind n ih =>
      rcases Nat.lt_or_ge n b with hn | hn
      · refine ⟨[n], ?_, List.cons_ne_nil _ _, by simp⟩
        rw [Nat.toDigits_of_lt_base hn]
        simp [digitValue_digitChar hn hb16]
      · obtain ⟨ds, hmap, -, hfold⟩ := ih (n / b) (Nat.div_lt_self (by omega) hb)
        have hlast : n % b < b := Nat.mod_lt _ (by omega)
        refine ⟨ds ++ [n % b], ?_, by simp, ?_⟩
        · rw [Nat.toDigits_of_base_le hb hn, List.map_append, hmap]
          simp [digitValue_digitChar hlast hb16]
        · rw [List.foldl_append, hfold]
          exact Nat.div_add_mod n b

theorem parseDigits_toDigits {b : Nat} (hb : 1 < b) (hb16 : b ≤ 16) (n : Nat) :
    parseDigits b (Nat.toDigits b n) = some n := by
  obtain ⟨ds, hmap, hne, hfold⟩ := values_toDigits hb hb16 n
  have hall : (ds.map some).takeWhile Option.isSome = ds.map some :=
    List.takeWhile_eq_self_iff.mpr (by simp)
  have hvalues : (ds.map some).filterMap id = ds := by simp [List.filterMap_map]
  rw [parseDigits, hmap, hall, hvalues]
  obtain ⟨d, ds, rfl⟩ := List.exists_cons_of_ne_nil hne
  exact congrArg some hfold

/-- What a digit is not. -/
theorem digit_plain : ∀ d < 16, isSpace d.digitChar = false ∧ d.digitChar ≠ '-' ∧
    d.digitChar ≠ '+' ∧ d.digitChar ≠ 'x' ∧ d.digitChar ≠ 'X' ∧ d.digitChar ≠ ':' ∧
    d.digitChar ≠ '.' ∧ d.digitChar ≠ '[' ∧ d.digitChar ≠ 'l' ∧
    Char.toLower d.digitChar = d.digitChar := by decide

/-- A number is read as it is written. -/
theorem parseInt_toDigits {b : Nat} (hb : 1 < b) (hb16 : b ≤ 16) (n : Nat) :
    parseInt (Nat.toDigits b n) b = some (n : Int) := by
  obtain ⟨c, rest, htext⟩ := List.exists_cons_of_ne_nil (Nat.toDigits_ne_nil (n := n) (b := b))
  have hplain : ∀ e ∈ c :: rest, isSpace e = false ∧ e ≠ '-' ∧ e ≠ '+' ∧ e ≠ 'x' ∧ e ≠ 'X' := by
    intro e he
    obtain ⟨d, hd, rfl⟩ := mem_toDigits hb (htext ▸ he)
    obtain ⟨hspace, hminus, hplus, hx, hX, -⟩ := digit_plain d (by omega)
    exact ⟨hspace, hminus, hplus, hx, hX⟩
  obtain ⟨hspace, hminus, hplus, -, -⟩ := hplain c List.mem_cons_self
  have hx : ['0', 'x'].isPrefixOf (c :: rest) = false := by
    rw [← Bool.not_eq_true, List.isPrefixOf_iff_prefix]
    exact fun h => (hplain 'x' (h.subset (by simp))).2.2.2.1 rfl
  have hX : ['0', 'X'].isPrefixOf (c :: rest) = false := by
    rw [← Bool.not_eq_true, List.isPrefixOf_iff_prefix]
    exact fun h => (hplain 'X' (h.subset (by simp))).2.2.2.2 rfl
  have hread := parseDigits_toDigits hb hb16 n
  rw [htext] at hread ⊢
  simp [parseInt, hspace, hminus, hplus, hx, hX, hread]

/-! ## Spellings of an IPv6 address -/

/-- Texts joined with a separator, as between groups or octets. -/
abbrev join (c : Char) (groups : List (List Char)) : List Char := [c].intercalate groups

/-- Groups of an address and what they stand for. -/
abbrev Spelled (groups : List (List Char)) (values : List Int) : Prop :=
  List.Forall₂ (fun g v => ':' ∉ g ∧ g ≠ [] ∧ parseInt g 16 = some v) groups values

variable {groups head tail : List (List Char)} {values u v : List Int}

theorem spelled_plain (h : Spelled groups values) : ∀ g ∈ groups, ':' ∉ g ∧ g ≠ [] := by
  induction h with
  | nil => exact fun g hg => absurd hg List.not_mem_nil
  | cons hfirst _ ih =>
      intro g hg
      rcases List.mem_cons.mp hg with rfl | hg
      · exact ⟨hfirst.1, hfirst.2.1⟩
      · exact ih g hg

theorem spelled_read (h : Spelled groups values) :
    (groups.mapM fun g => parseInt (if g.isEmpty then ['0'] else g) 16) = some values := by
  induction h with
  | nil => rfl
  | cons hfirst _ ih =>
      obtain ⟨-, hne, hread⟩ := hfirst
      rw [List.mapM_cons, ih, if_neg (by simpa using hne), hread]
      rfl

theorem spelled_zeros (n : Nat) :
    Spelled (List.replicate n ['0']) (List.replicate n 0) := by
  induction n with
  | zero => exact .nil
  | succ n ih => exact .cons ⟨by decide, by decide, by decide⟩ ih

theorem spelled_append (hu : Spelled head u) (hv : Spelled tail v) :
    Spelled (head ++ tail) (u ++ v) := List.rel_append hu hv

/-- The groups are found again. -/
theorem split_join (h : Spelled groups values) :
    (if (join ':' groups).isEmpty then [] else Text.split [':'] (join ':' groups)) = groups := by
  have hplain := spelled_plain h
  cases groups with
  | nil => rfl
  | cons g groups =>
      have hne : join ':' (g :: groups) ≠ [] := by
        have hg := (hplain g List.mem_cons_self).2
        cases groups <;> simp [join, hg]
      rw [if_neg (by simpa using hne)]
      exact Text.split_intercalate (List.cons_ne_nil g groups) fun p hp => (hplain p hp).1

/-- No two colons follow each other between groups. -/
theorem colons_apart (h : Spelled groups values) : ¬ [':', ':'] <:+: join ':' groups := by
  intro hin
  obtain ⟨before, after, htext⟩ := hin
  have hlt : before.length < (join ':' groups).length := by
    rw [← htext]
    simp only [List.length_append, List.length_cons]
    omega
  refine Text.not_pair_prefix (spelled_plain h) [] before.length hlt ?_
  rw [List.append_nil, show ([':'].intercalate groups) = _ from htext.symm, List.append_assoc,
    List.drop_left]
  exact List.prefix_append _ after

/-- An address spelled without `::`. -/
theorem expand_whole (h : Spelled groups values) (hlen : groups.length = 8) :
    expandIPv6Hextets (join ':' groups) = some values := by
  unfold expandIPv6Hextets
  rw [if_neg (colons_apart h)]
  simp only [split_join h, List.length_nil, Nat.add_zero, hlen, Nat.lt_irrefl, if_false,
    Nat.sub_self, List.replicate_zero, List.append_nil, ne_eq, not_true_eq_false]
  exact spelled_read h

/-- An address spelled with `::`. -/
theorem expand_compressed (hu : Spelled head u) (hv : Spelled tail v)
    (hlen : head.length + tail.length ≤ 8) :
    expandIPv6Hextets (join ':' head ++ ([':', ':'] ++ join ':' tail)) =
      some (u ++ List.replicate (8 - (head.length + tail.length)) 0 ++ v) := by
  have hin : [':', ':'] <:+: join ':' head ++ ([':', ':'] ++ join ':' tail) :=
    ⟨join ':' head, join ':' tail, List.append_assoc _ _ _⟩
  have hsplit : Text.split [':', ':'] (join ':' head ++ ([':', ':'] ++ join ':' tail)) =
      [join ':' head, join ':' tail] := by
    rw [Text.split_append (by decide) (Text.not_pair_prefix (spelled_plain hu) _),
      Text.split_whole (colons_apart hv)]
  have hread := spelled_read (spelled_append (spelled_append hu
    (spelled_zeros (8 - (head.length + tail.length)))) hv)
  have htotal : (head ++ List.replicate (8 - (head.length + tail.length)) ['0'] ++ tail).length =
      8 := by
    simp only [List.length_append, List.length_replicate]
    omega
  unfold expandIPv6Hextets
  rw [if_pos hin, hsplit]
  simp only [List.getElem?_cons_zero, List.getElem?_cons_succ, Option.getD_some, split_join hu,
    split_join hv, if_neg (Nat.not_lt.mpr hlen), htotal, ne_eq, not_true_eq_false, if_false]
  exact hread

/-! ## Addresses -/

/-- The address of a host that is an IP literal. -/
inductive Address
  | v4 (a : BitVec 32)
  | v6 (a : BitVec 128)
deriving DecidableEq

/-- The block of the addresses that share their first `n` bits with `start`. -/
def inBlock {w : Nat} (a start : BitVec w) (n : Nat) : Prop := a >>> (w - n) = start >>> (w - n)

instance {w : Nat} (a start : BitVec w) (n : Nat) : Decidable (inBlock a start n) :=
  inferInstanceAs (Decidable (_ = _))

/-- The IPv4 address of two octets, the others zero. -/
def ipv4 (o0 o1 : BitVec 8) : BitVec 32 := o0 ++ (o1 ++ 0#16)

/-- The IPv6 address of a first hextet, the others zero. -/
def ipv6 (h0 : BitVec 16) : BitVec 128 := h0 ++ 0#112

def InternalIPv4 (a : BitVec 32) : Prop :=
  inBlock a (ipv4 0 0) 8 ∨ inBlock a (ipv4 10 0) 8 ∨ inBlock a (ipv4 127 0) 8 ∨
    inBlock a (ipv4 169 254) 16 ∨ inBlock a (ipv4 172 16) 12 ∨ inBlock a (ipv4 192 168) 16

/-- The block of the IPv4-mapped addresses. -/
def mappedBlock : BitVec 128 := 0#80 ++ (0xffff#16 ++ 0#32)

/-- An IPv4-mapped address of an internal range. -/
def InternalMapped (a : BitVec 128) : Prop :=
  inBlock a mappedBlock 96 ∧ InternalIPv4 (a.setWidth 32)

/-- The addresses of an internal range. -/
def Internal : Address → Prop
  | .v4 a => InternalIPv4 a
  | .v6 a => a = 0 ∨ a = 1 ∨ inBlock a (ipv6 0xfc00) 7 ∨ inBlock a (ipv6 0xfe80) 10 ∨
      InternalMapped a

/-- The octets of an IPv4 address. -/
def octets (a : BitVec 32) : List Nat :=
  [(a >>> 24).toNat, (a >>> 16).toNat % 256, (a >>> 8).toNat % 256, a.toNat % 256]

/-- The pieces of an IPv6 address, sixteen bits each. -/
def pieces (a : BitVec 128) : List Nat :=
  (List.range 8).map fun i => (a >>> (112 - 16 * i)).toNat % 65536

/-! ## Hostnames -/

/-- How many pieces are zero from a place on. -/
def zerosFrom (pieces : List Nat) (i : Nat) : Nat :=
  ((pieces.drop i).takeWhile (· == 0)).length

/-- The first of the longest runs of zero pieces, where it is longer than one. -/
def compress (pieces : List Nat) : Option Nat :=
  ((List.range pieces.length).argmax (zerosFrom pieces)).filter fun i => 1 < zerosFrom pieces i

def serializeIPv4 (a : BitVec 32) : List Char := join '.' ((octets a).map (Nat.toDigits 10))

def serializeIPv6 (a : BitVec 128) : List Char :=
  let groups := (pieces a).map (Nat.toDigits 16)
  match compress (pieces a) with
  | none => join ':' groups
  | some i => join ':' (groups.take i) ++
      ([':', ':'] ++ join ':' (groups.drop (i + zerosFrom (pieces a) i)))

/-- An address as `net.isIP` takes it. -/
def Address.text : Address → List Char
  | .v4 a => serializeIPv4 a
  | .v6 a => serializeIPv6 a

def Address.family : Address → Nat
  | .v4 _ => 4
  | .v6 _ => 6

/-- An address as the host of a URL. -/
def Address.hostname : Address → String
  | .v4 a => String.ofList (serializeIPv4 a)
  | .v6 a => String.ofList ('[' :: (serializeIPv6 a ++ [']']))

theorem spelled_pieces (l : List Nat) :
    Spelled (l.map (Nat.toDigits 16)) (l.map Int.ofNat) := by
  induction l with
  | nil => exact .nil
  | cons n l ih =>
      refine .cons ⟨fun hcolon => ?_, Nat.toDigits_ne_nil, parseInt_toDigits (by decide) le_rfl n⟩ ih
      obtain ⟨d, hd, hcolon⟩ := mem_toDigits (by decide) hcolon
      exact (digit_plain d hd).2.2.2.2.2.1 hcolon.symm

/-- A run of zeros. -/
theorem drop_zerosFrom (l : List Nat) (i : Nat) :
    l.drop i = List.replicate (zerosFrom l i) 0 ++ l.drop (i + zerosFrom l i) := by
  have hzeros : (l.drop i).takeWhile (· == 0) = List.replicate (zerosFrom l i) 0 :=
    List.eq_replicate_iff.mpr ⟨rfl, fun n hn => by simpa using List.mem_takeWhile_imp hn⟩
  have hrest : (l.drop i).dropWhile (· == 0) = l.drop (i + zerosFrom l i) := by
    have htake := List.takeWhile_append_dropWhile (p := (· == 0)) (l := l.drop i)
    have hleft : ((l.drop i).takeWhile (· == 0) ++ (l.drop i).dropWhile (· == 0)).drop
        (zerosFrom l i) = (l.drop i).dropWhile (· == 0) := List.drop_left
    rw [← List.drop_drop, ← hleft, htake]
  rw [← hzeros, ← hrest, List.takeWhile_append_dropWhile]

/-- The hextets of a serialised address are its pieces. -/
theorem expand_serialize (a : BitVec 128) :
    expandIPv6Hextets (serializeIPv6 a) = some ((pieces a).map Int.ofNat) := by
  have hlen : (pieces a).length = 8 := rfl
  rw [serializeIPv6]
  cases compress (pieces a) with
  | none =>
      have h := expand_whole (spelled_pieces (pieces a)) (by rw [List.length_map, hlen])
      exact h
  | some i =>
      show expandIPv6Hextets (join ':' (((pieces a).map (Nat.toDigits 16)).take i) ++ ([':', ':'] ++
        join ':' (((pieces a).map (Nat.toDigits 16)).drop (i + zerosFrom (pieces a) i)))) = _
      have hrun := drop_zerosFrom (pieces a) i
      generalize zerosFrom (pieces a) i = k at hrun ⊢
      have htotal := congrArg List.length hrun
      simp only [List.length_append, List.length_replicate, List.length_drop, hlen] at htotal
      have hhead : ((pieces a).take i).length = min i 8 := by rw [List.length_take, hlen]
      have htail : ((pieces a).drop (i + k)).length = 8 - (i + k) := by rw [List.length_drop, hlen]
      have h := expand_compressed (spelled_pieces ((pieces a).take i))
        (spelled_pieces ((pieces a).drop (i + k)))
        (by rw [List.length_map, List.length_map, hhead, htail]; omega)
      rw [List.length_map, List.length_map, hhead, htail,
        show 8 - (min i 8 + (8 - (i + k))) = k by omega] at h
      have hvalues : (pieces a).map Int.ofNat =
          ((pieces a).take i).map Int.ofNat ++ List.replicate k 0 ++
            ((pieces a).drop (i + k)).map Int.ofNat := by
        conv_lhs => rw [← List.take_append_drop i (pieces a), hrun]
        simp
      rw [hvalues, ← h, List.map_take, List.map_drop]

/-! ## What a prefix of the spelling says -/

/-- The first hextet. -/
def firstHextet (a : BitVec 128) : Nat := (a >>> 112).toNat

theorem firstHextet_lt (a : BitVec 128) : firstHextet a < 65536 := by
  have := a.isLt
  rw [firstHextet, BitVec.toNat_ushiftRight, Nat.shiftRight_eq_div_pow]
  omega

theorem pieces_cons (a : BitVec 128) : ∃ p ps, pieces a = firstHextet a :: p :: ps := by
  have hpieces : pieces a = firstHextet a % 65536 :: (pieces a).tail := rfl
  rw [Nat.mod_eq_of_lt (firstHextet_lt a)] at hpieces
  exact ⟨_, (pieces a).tail.tail, hpieces⟩

/-- A serialised address begins with its first hextet and a colon, or with `::`. -/
theorem serialize_begins (a : BitVec 128) : ∃ rest,
    serializeIPv6 a = Nat.toDigits 16 (firstHextet a) ++ ':' :: rest ∨
      firstHextet a = 0 ∧ serializeIPv6 a = ':' :: rest := by
  obtain ⟨p, ps, hpieces⟩ := pieces_cons a
  rw [serializeIPv6]
  cases hcompress : compress (pieces a) with
  | none =>
      simp only [hpieces, List.map_cons, join, List.intercalate_cons_cons, List.append_assoc]
      exact ⟨_, .inl rfl⟩
  | some i =>
      cases i with
      | zero =>
          have hlong := of_decide_eq_true (Option.filter_eq_some_iff.mp hcompress).2
          have hrun := drop_zerosFrom (pieces a) 0
          obtain ⟨k, hk⟩ := Nat.exists_eq_succ_of_ne_zero (by omega : zerosFrom (pieces a) 0 ≠ 0)
          have hfirst : firstHextet a = 0 := by
            rw [hk, List.drop_zero, hpieces, Nat.succ_eq_add_one, List.replicate_succ,
              List.cons_append] at hrun
            exact (List.cons.inj hrun).1
          exact ⟨_, .inr ⟨hfirst, rfl⟩⟩
      | succ i =>
          simp only [hpieces, List.map_cons, List.take_succ_cons]
          cases (Nat.toDigits 16 p :: ps.map (Nat.toDigits 16)).take i with
          | nil =>
              rw [join, List.intercalate_singleton]
              exact ⟨_, .inl rfl⟩
          | cons q qs =>
              simp only [join, List.intercalate_cons_cons, List.append_assoc]
              exact ⟨_, .inl rfl⟩

/-- A prefix without colons is one of the first hextet. -/
theorem prefix_serialize {s : List Char} (hs : ':' ∉ s) (hne : s ≠ []) (hzero : s ≠ ['0'])
    (a : BitVec 128) :
    s <+: serializeIPv6 a ↔ s <+: Nat.toDigits 16 (firstHextet a) := by
  obtain ⟨rest, htext | ⟨hfirst, htext⟩⟩ := serialize_begins a
  · rw [htext]
    constructor
    · intro h
      rcases List.prefix_or_prefix_of_prefix h (List.prefix_append _ (':' :: rest)) with h' | h'
      · exact h'
      · -- a longer one would have the colon
        obtain ⟨more, rfl⟩ := h'
        have hmore := (List.prefix_append_right_inj _).mp h
        cases more with
        | nil => exact ⟨[], by simp only [List.append_nil]⟩
        | cons c more =>
            obtain ⟨rfl, -⟩ := List.cons_prefix_cons.mp hmore
            exact absurd (List.mem_append_right _ List.mem_cons_self) hs
    · exact fun h => h.trans (List.prefix_append _ _)
  · rw [htext, hfirst, Nat.toDigits_zero]
    obtain ⟨c, s, rfl⟩ := List.exists_cons_of_ne_nil hne
    refine iff_of_false (fun h => ?_) (fun h => ?_)
    · obtain ⟨rfl, -⟩ := List.cons_prefix_cons.mp h
      exact hs List.mem_cons_self
    · obtain ⟨rfl, hrest⟩ := List.cons_prefix_cons.mp h
      exact hzero (congrArg _ (List.prefix_nil.mp hrest))

/-- A hextet in digits. -/
theorem toDigits_hextet {h : Nat} (hlt : h < 65536) : Nat.toDigits 16 h =
    if h < 16 then [h.digitChar]
    else if h < 256 then [(h / 16).digitChar, (h % 16).digitChar]
    else if h < 4096 then
      [(h / 256).digitChar, (h / 16 % 16).digitChar, (h % 16).digitChar]
    else [(h / 4096).digitChar, (h / 256 % 16).digitChar, (h / 16 % 16).digitChar,
      (h % 16).digitChar] := by
  have hb : 1 < 16 := by decide
  split
  · exact Nat.toDigits_of_lt_base ‹_›
  · rw [Nat.toDigits_of_base_le hb (by omega)]
    split
    · rw [Nat.toDigits_of_lt_base (by omega)]
      rfl
    · rw [Nat.toDigits_of_base_le hb (by omega), Nat.div_div_eq_div_mul]
      split
      · rw [Nat.toDigits_of_lt_base (by omega)]
        rfl
      · rw [Nat.toDigits_of_base_le hb (by omega), Nat.div_div_eq_div_mul,
          Nat.toDigits_of_lt_base (by omega)]
        rfl

/-- Two hex digits in front. -/
theorem prefix_two {h d e : Nat} (hlt : h < 65536) (hd : 0 < d) (hd' : d < 16) (he : e < 16) :
    [d.digitChar, e.digitChar] <+: Nat.toDigits 16 h ↔
      h = 16 * d + e ∨ h / 16 = 16 * d + e ∨ h / 256 = 16 * d + e := by
  have hinj : ∀ m < 16, ∀ n < 16, m.digitChar = n.digitChar ↔ m = n := by decide
  rw [toDigits_hextet hlt]
  split
  · simp
    omega
  · split
    · rw [List.cons_prefix_cons, List.cons_prefix_cons, hinj d hd' _ (by omega),
        hinj e he _ (by omega)]
      simp
      omega
    · split
      · rw [List.cons_prefix_cons, List.cons_prefix_cons, hinj d hd' _ (by omega),
          hinj e he _ (by omega)]
        simp
        omega
      · rw [List.cons_prefix_cons, List.cons_prefix_cons, hinj d hd' _ (by omega),
          hinj e he _ (by omega)]
        simp
        omega

theorem prefix_fe80 {h : Nat} (hlt : h < 65536) :
    ['f', 'e', '8', '0'] <+: Nat.toDigits 16 h ↔ h = 0xfe80 := by
  rw [toDigits_hextet hlt]
  split
  · simp
    omega
  · split
    · simp
      omega
    · split
      · simp
        omega
      · simp [List.cons_prefix_cons]
        omega

/-! ## IPv4 addresses -/

theorem inBlock_iff {w : Nat} {a start : BitVec w} {n : Nat} :
    inBlock a start n ↔ a.toNat / 2 ^ (w - n) = start.toNat / 2 ^ (w - n) := by
  rw [inBlock, BitVec.toNat_eq, BitVec.toNat_ushiftRight, BitVec.toNat_ushiftRight,
    Nat.shiftRight_eq_div_pow, Nat.shiftRight_eq_div_pow]

/-- What the code makes of the first two octets. -/
theorem private_quad (o0 o1 o2 o3 : Nat) :
    isPrivateIPv4 (join '.' ([o0, o1, o2, o3].map (Nat.toDigits 10))) = true ↔
      o0 = 0 ∨ (o0 = 10 ∨ o0 = 127) ∨ (o0 = 169 ∧ o1 = 254) ∨ (o0 = 192 ∧ o1 = 168) ∨
        (o0 = 172 ∧ 16 ≤ o1 ∧ o1 ≤ 31) := by
  have hsplit : Text.split ['.'] (join '.' ([o0, o1, o2, o3].map (Nat.toDigits 10))) =
      [o0, o1, o2, o3].map (Nat.toDigits 10) := by
    refine Text.split_intercalate (List.cons_ne_nil _ _) fun g hg hdot => ?_
    obtain ⟨n, -, rfl⟩ := List.mem_map.mp hg
    obtain ⟨d, hd, hdot⟩ := mem_toDigits (by decide) hdot
    exact (digit_plain d (by omega)).2.2.2.2.2.2.1 hdot.symm
  have hread : ∀ n : Nat, parseInt (Nat.toDigits 10 n) 10 = some (n : Int) :=
    fun n => parseInt_toDigits (by decide) (by decide) n
  unfold isPrivateIPv4
  rw [hsplit]
  simp only [List.map_cons, List.map_nil, List.getElem?_cons_zero, List.getElem?_cons_succ,
    hread, Option.join_some, Option.any_some]
  simp only [Bool.if_true_left, Bool.or_eq_true, Bool.and_eq_true, decide_eq_true_eq, beq_iff_eq,
    Option.some.injEq]
  omega

theorem internal_iff_octets (a : BitVec 32) : InternalIPv4 a ↔
    isPrivateIPv4 (serializeIPv4 a) = true := by
  have := a.isLt
  rw [serializeIPv4, octets, private_quad]
  simp only [InternalIPv4, inBlock_iff, ipv4, BitVec.toNat_append, BitVec.toNat_ushiftRight,
    Nat.shiftRight_eq_div_pow]
  simp
  omega

/-! ## IPv4-mapped addresses -/

theorem octet_toNat (x : BitVec 32) : (x &&& 0xff).toNat = x.toNat % 256 := by
  rw [BitVec.toNat_and]
  exact Nat.and_two_pow_sub_one_eq_mod x.toNat 8

/-- The last two pieces, shifted together. -/
theorem last32_eq (a : BitVec 128) :
    BitVec.ofInt 32 (Int.ofNat ((a >>> 16).toNat % 65536)) <<< 16 |||
      BitVec.ofInt 32 (Int.ofNat (a.toNat % 65536)) = a.setWidth 32 := by
  have hpiece : ∀ n < 65536, (BitVec.ofInt 32 (Int.ofNat n)).toNat = n := by
    intro n hn
    rw [Int.ofNat_eq_natCast, BitVec.ofInt_natCast, BitVec.toNat_ofNat, Nat.mod_eq_of_lt (by omega)]
  apply BitVec.eq_of_toNat_eq
  rw [BitVec.toNat_or, BitVec.toNat_shiftLeft, hpiece _ (by omega), hpiece _ (by omega),
    Nat.mod_eq_of_lt (by rw [Nat.shiftLeft_eq]; omega), ← Nat.shiftLeft_add_eq_or_of_lt (by omega),
    Nat.shiftLeft_eq, BitVec.toNat_setWidth, BitVec.toNat_ushiftRight, Nat.shiftRight_eq_div_pow]
  omega

theorem mapped_iff (a : BitVec 128) : ((((pieces a).map Int.ofNat).take 5).all (· == 0) &&
    ((pieces a).map Int.ofNat)[5]? == some 0xffff) = true ↔ inBlock a mappedBlock 96 := by
  have := a.isLt
  simp [pieces, List.range, List.range.loop, inBlock_iff, mappedBlock, Nat.shiftRight_eq_div_pow]
  omega

/-- The IPv4 address in a serialised address is in its last 32 bits, where it is a mapped one. -/
theorem extract_mapped (a : BitVec 128) : extractIPv4MappedAddress (serializeIPv6 a) =
    if inBlock a mappedBlock 96 then some (serializeIPv4 (a.setWidth 32)) else none := by
  have hlast := last32_eq a
  have hoctets : ∀ x : BitVec 32, [(x >>> 24) &&& 0xff, (x >>> 16) &&& 0xff, (x >>> 8) &&& 0xff,
      x &&& 0xff].map (fun b => Nat.toDigits 10 b.toNat) = (octets x).map (Nat.toDigits 10) := by
    intro x
    have hfirst : (x >>> 24).toNat % 256 = (x >>> 24).toNat := by
      have := x.isLt
      rw [BitVec.toNat_ushiftRight, Nat.shiftRight_eq_div_pow]
      omega
    simp only [octets, List.map_cons, List.map_nil, octet_toNat, hfirst]
  have hsix : ((pieces a).map Int.ofNat)[6]?.getD 0 = Int.ofNat ((a >>> 16).toNat % 65536) := rfl
  have hseven : ((pieces a).map Int.ofNat)[7]?.getD 0 = Int.ofNat (a.toNat % 65536) := rfl
  by_cases hin : inBlock a mappedBlock 96
  · have hflag := (mapped_iff a).mpr hin
    rw [if_pos hin, serializeIPv4, ← hoctets, ← hlast, ← hsix, ← hseven]
    simp only [extractIPv4MappedAddress, expand_serialize, Option.bind_eq_bind, Option.bind_some,
      hflag, Bool.not_true, Bool.false_eq_true, if_false]
    rfl
  · have hflag := Bool.not_eq_true _ ▸ mt (mapped_iff a).mp hin
    rw [if_neg hin]
    simp only [extractIPv4MappedAddress, expand_serialize, Option.bind_eq_bind, Option.bind_some,
      hflag, Bool.not_false, if_true]
    rfl

/-! ## The judgement -/

/-- The characters of a hostname that is an IP literal. -/
def Plain (c : Char) : Prop := (∃ d < 16, c = d.digitChar) ∨ c ∈ [':', '.', '[', ']']

theorem mem_join {s c : Char} {groups : List (List Char)} (h : c ∈ join s groups) :
    c = s ∨ ∃ g ∈ groups, c ∈ g := by
  induction groups with
  | nil => cases h
  | cons g groups ih =>
      cases groups with
      | nil =>
          rw [join, List.intercalate_singleton] at h
          exact .inr ⟨g, List.mem_cons_self, h⟩
      | cons g' groups =>
          rw [join, List.intercalate_cons_cons, List.append_assoc, List.mem_append,
            List.mem_append, List.mem_singleton] at h
          rcases h with h | h | h
          · exact .inr ⟨g, List.mem_cons_self, h⟩
          · exact .inl h
          · exact (ih h).imp id fun ⟨r, hr, hc⟩ => ⟨r, List.mem_cons_of_mem g hr, hc⟩

/-- Numbers joined are digits and separators. -/
theorem mem_join_digits {s c : Char} {b : Nat} (hb : 1 < b) (hb16 : b ≤ 16) {l : List Nat}
    (h : c ∈ join s (l.map (Nat.toDigits b))) : (∃ d < 16, c = d.digitChar) ∨ c = s := by
  rcases mem_join h with rfl | ⟨g, hg, hc⟩
  · exact .inr rfl
  · obtain ⟨n, -, rfl⟩ := List.mem_map.mp hg
    obtain ⟨d, hd, rfl⟩ := mem_toDigits hb hc
    exact .inl ⟨d, by omega, rfl⟩

theorem mem_serializeIPv6 {a : BitVec 128} {c : Char} (h : c ∈ serializeIPv6 a) :
    (∃ d < 16, c = d.digitChar) ∨ c = ':' := by
  rw [serializeIPv6] at h
  cases hcompress : compress (pieces a) with
  | none =>
      rw [hcompress] at h
      exact mem_join_digits (by decide) le_rfl h
  | some i =>
      simp only [hcompress, ← List.map_take, ← List.map_drop] at h
      rcases List.mem_append.mp h with h | h
      · exact mem_join_digits (by decide) le_rfl h
      · rcases List.mem_append.mp h with h | h
        · exact .inr (by simpa using h)
        · exact mem_join_digits (by decide) le_rfl h

theorem mem_serializeIPv4 {a : BitVec 32} {c : Char} (h : c ∈ serializeIPv4 a) :
    (∃ d < 16, c = d.digitChar) ∨ c = '.' := mem_join_digits (by decide) (by decide) h

theorem toLower_plain {c : Char} (h : Plain c) : c.toLower = c ∧ c ≠ 'l' := by
  rcases h with ⟨d, hd, rfl⟩ | h
  · obtain ⟨-, -, -, -, -, -, -, -, hl, hlower⟩ := digit_plain d hd
    exact ⟨hlower, hl⟩
  · have hall : ([':', '.', '[', ']'].all fun c => c.toLower == c && c != 'l') = true := by decide
    simpa using List.all_eq_true.mp hall c h

theorem toLowerCase_plain {l : List Char} (h : ∀ c ∈ l, Plain c) : toLowerCase l = l := by
  rw [toLowerCase]
  exact (List.map_congr_left fun c hc => (toLower_plain (h c hc)).1).trans (List.map_id l)

theorem plain_serializeIPv6 (a : BitVec 128) : ∀ c ∈ serializeIPv6 a, Plain c :=
  fun _ hc => (mem_serializeIPv6 hc).imp id fun h => by rw [h]; decide

theorem plain_hostname (addr : Address) : ∀ c ∈ addr.hostname.toList, Plain c := by
  intro c hc
  cases addr with
  | v4 a =>
      rw [Address.hostname, String.toList_ofList] at hc
      exact (mem_serializeIPv4 hc).imp id fun h => by rw [h]; decide
  | v6 a =>
      rw [Address.hostname, String.toList_ofList] at hc
      rcases List.mem_cons.mp hc with rfl | hc
      · exact .inr (by decide)
      · rcases List.mem_append.mp hc with hc | hc
        · exact plain_serializeIPv6 a c hc
        · exact .inr (by rw [List.mem_singleton.mp hc]; decide)

/-- The brackets are stripped. -/
theorem strip_hostname (addr : Address) : stripBrackets addr.hostname.toList = addr.text := by
  cases addr with
  | v4 a =>
      have hhead : (serializeIPv4 a).head? ≠ some '[' := by
        intro h
        rcases mem_serializeIPv4 (List.mem_of_head? h) with ⟨d, hd, h⟩ | h
        · exact (digit_plain d hd).2.2.2.2.2.2.2.1 h.symm
        · exact absurd h (by decide)
      rw [Address.hostname, String.toList_ofList, stripBrackets, Address.text, if_neg]
      simp [hhead]
  | v6 a =>
      rw [Address.hostname, String.toList_ofList, stripBrackets, Address.text, if_pos]
      · rw [List.tail_cons, List.dropLast_concat]
      · simp [List.getLast?_cons]

/-- A quotient is told by its last piece and what is left of it. -/
theorem quotient_eq {n m d : Nat} (hlow : n / d % 65536 = m / d % 65536)
    (hhigh : n / (d * 65536) = m / (d * 65536)) : n / d = m / d := by
  rw [← Nat.div_add_mod (n / d) 65536, ← Nat.div_add_mod (m / d) 65536, Nat.div_div_eq_div_mul,
    Nat.div_div_eq_div_mul, hlow, hhigh]

/-- Addresses are told apart by their pieces. -/
theorem eq_of_pieces {a b : BitVec 128} (h : pieces a = pieces b) : a = b := by
  have hpiece : ∀ i < 8, a.toNat / 2 ^ (112 - 16 * i) % 65536 = b.toNat / 2 ^ (112 - 16 * i) % 65536 := by
    intro i hi
    have hsame := List.map_inj_left.mp h i (List.mem_range.mpr hi)
    rwa [BitVec.toNat_ushiftRight, BitVec.toNat_ushiftRight, Nat.shiftRight_eq_div_pow,
      Nat.shiftRight_eq_div_pow] at hsame
  have hleft : ∀ i < 8, a.toNat / 2 ^ (112 - 16 * i) = b.toNat / 2 ^ (112 - 16 * i) := by
    intro i hi
    induction i with
    | zero =>
        refine quotient_eq (hpiece 0 hi) ?_
        rw [Nat.div_eq_of_lt (a.isLt.trans_eq (by decide)), Nat.div_eq_of_lt (b.isLt.trans_eq (by decide))]
    | succ i ih =>
        have hpow : 2 ^ (112 - 16 * (i + 1)) * 65536 = 2 ^ (112 - 16 * i) := by
          rw [show 65536 = 2 ^ 16 from rfl, ← Nat.pow_add, show 112 - 16 * (i + 1) + 16 = 112 - 16 * i by omega]
        refine quotient_eq (hpiece (i + 1) hi) ?_
        rw [hpow]
        exact ih (by omega)
  apply BitVec.eq_of_toNat_eq
  simpa using hleft 7 (by decide)

theorem serialize_eq_one {a : BitVec 128} : serializeIPv6 a = [':', ':', '1'] ↔ a = 1 := by
  have hone : serializeIPv6 1 = [':', ':', '1'] := by decide
  constructor
  · intro h
    have hexpand := expand_serialize a
    rw [h, ← hone, expand_serialize 1] at hexpand
    have hpieces := List.map_injective_iff.mpr (fun _ _ h => Int.ofNat.inj h)
      (Option.some.inj hexpand)
    exact (eq_of_pieces hpieces).symm
  · rintro rfl
    exact hone

/-- What the code makes of an IPv6 address. -/
theorem private_serialized (a : BitVec 128) : isPrivateAddress (serializeIPv6 a) 6 = true ↔
    a = 1 ∨ (firstHextet a = 0xfc ∨ firstHextet a / 16 = 0xfc ∨ firstHextet a / 256 = 0xfc) ∨
      (firstHextet a = 0xfd ∨ firstHextet a / 16 = 0xfd ∨ firstHextet a / 256 = 0xfd) ∨
        firstHextet a = 0xfe80 ∨ InternalMapped a := by
  have hlt := firstHextet_lt a
  have hfc : ['f', 'c'].isPrefixOf (serializeIPv6 a) = true ↔
      firstHextet a = 0xfc ∨ firstHextet a / 16 = 0xfc ∨ firstHextet a / 256 = 0xfc := by
    rw [List.isPrefixOf_iff_prefix, prefix_serialize (by decide) (by decide) (by decide)]
    exact prefix_two hlt (d := 15) (e := 12) (by decide) (by decide) (by decide)
  have hfd : ['f', 'd'].isPrefixOf (serializeIPv6 a) = true ↔
      firstHextet a = 0xfd ∨ firstHextet a / 16 = 0xfd ∨ firstHextet a / 256 = 0xfd := by
    rw [List.isPrefixOf_iff_prefix, prefix_serialize (by decide) (by decide) (by decide)]
    exact prefix_two hlt (d := 15) (e := 13) (by decide) (by decide) (by decide)
  have hfe80 : ['f', 'e', '8', '0'].isPrefixOf (serializeIPv6 a) = true ↔
      firstHextet a = 0xfe80 := by
    rw [List.isPrefixOf_iff_prefix, prefix_serialize (by decide) (by decide) (by decide)]
    exact prefix_fe80 hlt
  have hmapped : InternalMapped a ↔ inBlock a mappedBlock 96 ∧
      isPrivateIPv4 (serializeIPv4 (a.setWidth 32)) = true := by
    rw [InternalMapped, internal_iff_octets]
  rw [isPrivateAddress, if_pos (beq_self_eq_true 6), toLowerCase_plain (plain_serializeIPv6 a)]
  by_cases hin : inBlock a mappedBlock 96
  · simp only [extract_mapped, Bool.if_true_left, Bool.or_eq_true, decide_eq_true_eq, beq_iff_eq,
      serialize_eq_one, hfc, hfd, hfe80, hmapped, hin, if_true, true_and, or_assoc]
  · simp only [extract_mapped, Bool.if_true_left, Bool.or_eq_true, decide_eq_true_eq, beq_iff_eq,
      serialize_eq_one, hfc, hfd, hfe80, hmapped, hin, if_false, false_and, or_assoc,
      Bool.false_eq_true]

/-- The addresses a prefix of the spelling gets wrong: `::`, the link-local ones that do not begin
with `fe80`, and those whose first hextet, not four digits long, begins with `fc` or `fd`. -/
def Misjudged : Address → Prop
  | .v4 _ => False
  | .v6 a => a = 0 ∨ (inBlock a (ipv6 0xfe80) 10 ∧ ¬ inBlock a (ipv6 0xfe80) 16) ∨
      (inBlock a (ipv6 0x00fc) 16 ∨ inBlock a (ipv6 0x0fc0) 12) ∨
        inBlock a (ipv6 0x00fd) 16 ∨ inBlock a (ipv6 0x0fd0) 12

instance (addr : Address) : Decidable (Misjudged addr) :=
  match addr with
  | .v4 _ => inferInstanceAs (Decidable False)
  | .v6 _ => inferInstanceAs (Decidable (_ ∨ (_ ∧ _) ∨ (_ ∨ _) ∨ _ ∨ _))

/-- A block of at most sixteen bits is read off the first hextet. -/
theorem inBlock_ipv6 {a : BitVec 128} {h : BitVec 16} {n : Nat} (hn : n ≤ 16) :
    inBlock a (ipv6 h) n ↔ firstHextet a / 2 ^ (16 - n) = h.toNat / 2 ^ (16 - n) := by
  have hpow : 2 ^ (128 - n) = 2 ^ 112 * 2 ^ (16 - n) := by
    rw [← Nat.pow_add]
    congr 1
    omega
  have hstart : (ipv6 h).toNat = h.toNat * 2 ^ 112 := by
    rw [ipv6, BitVec.toNat_append, BitVec.toNat_ofNat, Nat.zero_mod, Nat.or_zero, Nat.shiftLeft_eq]
  rw [inBlock_iff, hpow, ← Nat.div_div_eq_div_mul, ← Nat.div_div_eq_div_mul, hstart,
    Nat.mul_div_cancel _ (Nat.two_pow_pos 112), firstHextet, BitVec.toNat_ushiftRight,
    Nat.shiftRight_eq_div_pow]

/-- A mapped address begins with zeros, and is none of the two smallest. -/
theorem mapped_begins {a : BitVec 128} (h : InternalMapped a) :
    firstHextet a = 0 ∧ a ≠ 0 ∧ a ≠ 1 := by
  have hin := inBlock_iff.mp h.1
  simp only [mappedBlock, BitVec.toNat_append] at hin
  simp at hin
  refine ⟨?_, ?_, ?_⟩
  · rw [firstHextet, BitVec.toNat_ushiftRight, Nat.shiftRight_eq_div_pow]
    omega
  · rintro rfl
    simp at hin
  · rintro rfl
    simp at hin

/-- **The judgement** is right exactly where the address is not misjudged. -/
theorem private_iff_internal (addr : Address) :
    (isPrivateAddress addr.text addr.family = true ↔ Internal addr) ↔ ¬ Misjudged addr := by
  cases addr with
  | v4 a =>
      have hquad : isPrivateAddress (serializeIPv4 a) 4 = isPrivateIPv4 (serializeIPv4 a) := rfl
      exact iff_of_true (by rw [Address.text, Address.family, hquad]; exact (internal_iff_octets a).symm)
        id
  | v6 a =>
      have hlt := firstHextet_lt a
      have hzero : a = 0 → firstHextet a = 0 := by rintro rfl; rfl
      have hone : a = 1 → firstHextet a = 0 ∧ a ≠ 0 := by rintro rfl; exact ⟨rfl, by decide⟩
      have hmapped : InternalMapped a → firstHextet a = 0 ∧ a ≠ 0 ∧ a ≠ 1 := mapped_begins
      simp only [Address.text, Address.family, private_serialized, Internal, Misjudged,
        inBlock_ipv6 (show 7 ≤ 16 by decide), inBlock_ipv6 (show 10 ≤ 16 by decide),
        inBlock_ipv6 (show 12 ≤ 16 by decide), inBlock_ipv6 (show 16 ≤ 16 by decide)]
      generalize firstHextet a = h at *
      by_cases hM : InternalMapped a
      · obtain ⟨hh, ha, ho⟩ := hmapped hM
        simp [hM, hh]
        exact ha
      · by_cases ha : a = 0
        · have hh := hzero ha
          rw [ha] at hM
          simp [ha, hh]
          exact hM
        · by_cases ho : a = 1
          · have hh := (hone ho).1
            simp [ho, hh]
          · simp only [hM, ha, ho, false_or, or_false]
            simp
            omega

/-! ## The check -/

/-- The schemes that are permitted. -/
def Permitted (url : Url) (allowHttp : Bool) : Prop :=
  url.protocol = "https:" ∨ (allowHttp = true ∧ url.protocol = "http:")

/-- A URL whose host is an IP literal, as the parser and `net.isIP` see it. -/
structure Literal (env : Env) (url : Url) (addr : Address) : Prop where
  hostname : url.hostname = addr.hostname
  isIP : env.isIP addr.text = addr.family

/-- The URL is refused. -/
def Rejects (env : Env) (rawUrl : String) (allowHttp : Bool) : Prop :=
  ∃ e, assertPublicUrl env rawUrl allowHttp = .error e

/-- What the guard should do: refuse exactly what is not permitted or internal. -/
def Guards (env : Env) (rawUrl : String) (allowHttp : Bool) (url : Url) (addr : Address) : Prop :=
  Rejects env rawUrl allowHttp ↔ (¬ Permitted url allowHttp ∨ Internal addr)

variable {env : Env} {rawUrl : String} {allowHttp : Bool} {url : Url} {addr : Address}

theorem scheme_refused : (url.protocol != "https:" && !(allowHttp && url.protocol == "http:")) =
    true ↔ ¬ Permitted url allowHttp := by
  cases allowHttp <;> simp [Permitted]

/-- The host of an IP literal is no `localhost`. -/
theorem not_localhost (addr : Address) : (addr.hostname.toList == localhost ||
    ('.' :: localhost).isSuffixOf addr.hostname.toList) = false := by
  have hl : 'l' ∉ addr.hostname.toList :=
    fun h => (toLower_plain (plain_hostname addr 'l' h)).2 rfl
  have hmem : 'l' ∈ localhost := by decide
  rw [Bool.or_eq_false_iff]
  constructor
  · rw [beq_eq_false_iff_ne]
    exact fun h => hl (h ▸ hmem)
  · rw [← Bool.not_eq_true, List.isSuffixOf_iff_suffix]
    exact fun h => hl (h.subset (List.mem_cons_of_mem _ hmem))

/-- A URL with an IP literal is refused for its scheme or for its address. -/
theorem rejects_iff (hparse : env.parse rawUrl = some url) (hliteral : Literal env url addr) :
    Rejects env rawUrl allowHttp ↔
      (¬ Permitted url allowHttp ∨ isPrivateAddress addr.text addr.family = true) := by
  have hlower := toLowerCase_plain (plain_hostname addr)
  have hfamily : (addr.family != 0) = true := by cases addr <;> rfl
  rw [Rejects, assertPublicUrl, hparse]
  simp only [pure_bind, hliteral.hostname, hlower, not_localhost, strip_hostname, hliteral.isIP,
    hfamily, Bool.true_and]
  by_cases hscheme : Permitted url allowHttp
  · have hpass := Bool.not_eq_true _ ▸ mt scheme_refused.mp (not_not_intro hscheme)
    rw [hpass]
    cases hprivate : isPrivateAddress addr.text addr.family with
    | false => exact iff_of_false (fun ⟨_, h⟩ => by cases h) (by simpa using hscheme)
    | true => exact iff_of_true ⟨_, rfl⟩ (.inr rfl)
  · rw [scheme_refused.mpr hscheme]
    exact iff_of_true ⟨_, rfl⟩ (.inl hscheme)

/-- **The guard** covers its address ranges exactly where it does not misjudge the address. -/
theorem guard_exact (hparse : env.parse rawUrl = some url) (hliteral : Literal env url addr) :
    Guards env rawUrl allowHttp url addr ↔ (¬ Permitted url allowHttp ∨ ¬ Misjudged addr) := by
  rw [Guards, rejects_iff hparse hliteral, ← private_iff_internal]
  by_cases hscheme : Permitted url allowHttp
  · simp only [hscheme, not_true_eq_false, false_or]
  · simp only [hscheme, not_false_eq_true, true_or]

/-! ## Two addresses -/

namespace Demo

/-- A parser that knows one address, written with zeros and without. -/
def parser (spelled : List (String × Address)) : Env where
  parse raw := (spelled.find? (·.1 == raw)).map fun s => ⟨"https:", s.2.hostname⟩
  isIP text := ((spelled.find? (·.2.text == text)).map (·.2.family)).getD 0

/-- The unspecified address, the loopback one in full, and a mapped one. -/
def spelled : List (String × Address) :=
  [("https://[0:0:0:0:0:0:0:0]/", .v6 0), ("https://[::0001]/", .v6 1),
    ("https://[::ffff:10.0.0.5]/", .v6 0xffff0a000005)]

end Demo

/-- The unspecified address is internal, and accepted. -/
theorem unspecified_accepted : ∃ url,
    (Demo.parser Demo.spelled).parse "https://[0:0:0:0:0:0:0:0]/" = some url ∧
      Literal (Demo.parser Demo.spelled) url (.v6 0) ∧ Permitted url false ∧
        ¬ Guards (Demo.parser Demo.spelled) "https://[0:0:0:0:0:0:0:0]/" false url (.v6 0) := by
  refine ⟨⟨"https:", (Address.v6 0).hostname⟩, by decide, ⟨rfl, by decide⟩, .inl rfl, ?_⟩
  intro hguards
  obtain ⟨e, he⟩ := hguards.mpr (.inr (.inl rfl))
  have haccepted : assertPublicUrl (Demo.parser Demo.spelled) "https://[0:0:0:0:0:0:0:0]/" false =
      .ok () := by decide
  rw [haccepted] at he
  cases he

/-- A mapped address of 10/8 is refused. -/
theorem mapped_guarded : ∃ url,
    (Demo.parser Demo.spelled).parse "https://[::ffff:10.0.0.5]/" = some url ∧
      Guards (Demo.parser Demo.spelled) "https://[::ffff:10.0.0.5]/" false url
        (.v6 0xffff0a000005) ∧ ¬ Misjudged (.v6 0xffff0a000005) := by
  refine ⟨⟨"https:", (Address.v6 0xffff0a000005).hostname⟩, by decide, ?_, by decide⟩
  exact (guard_exact (by decide) ⟨rfl, by decide⟩).mpr (.inr (by decide))

end Meduman.Ssrf
