import Mathlib.Logic.Function.Basic

/-!
# A register and its files

A register says where each subject stands; a file of disputes is kept beside it. Two operations change
both, the register first: one opens a dispute and then files it, one settles the subject and then closes
the dispute. Between its two writes an operation owes the second.

* `Docket` : the register, the files and what each agent owes
* `Docket.Step` : what the operations and the rest of the world do
* `Docket.Agrees` : the invariant, with what is owed
* **`Docket.Agrees.settled`** : where nothing is owed, the register and the files agree
-/

set_option autoImplicit false

namespace Meduman

/-- Where a subject stands: before any dispute, in one, or past it. -/
inductive Standing
  | live | disputed | settled
deriving DecidableEq, Repr

/-- Subjects `τ` and disputes `δ`; agents are numbered. -/
@[ext]
structure Docket (τ δ : Type) where
  standing : τ → Option Standing
  /-- What a filed dispute is about, and whether it is still open. -/
  filed : δ → Option (τ × Bool)
  /-- The subject whose dispute an agent still has to file. -/
  opening : Nat → Option τ
  /-- The dispute an agent still has to close. -/
  closing : Nat → Option δ

namespace Docket

variable {τ δ : Type}

/-- **The invariant.** What the register and the files lack of each other, some agent owes. -/
structure Agrees (a : Docket τ δ) : Prop where
  one : ∀ {d d' t o o'}, a.filed d = some (t, o) → a.filed d' = some (t, o') → d = d'
  stood : ∀ {d t o}, a.filed d = some (t, o) →
    a.standing t = some .disputed ∨ a.standing t = some .settled
  frozen : ∀ {d t}, a.filed d = some (t, true) →
    a.standing t = some .disputed ∨ ∃ i, a.closing i = some d
  disputed : ∀ {t}, a.standing t = some .disputed →
    (∃ d, a.filed d = some (t, true)) ∨ ∃ i, a.opening i = some t
  opening : ∀ {i t}, a.opening i = some t →
    a.standing t = some .disputed ∧ ∀ d o, a.filed d ≠ some (t, o)
  alone : ∀ {i j t}, a.opening i = some t → a.opening j = some t → i = j
  closing : ∀ {i d}, a.closing i = some d →
    ∃ t o, a.filed d = some (t, o) ∧ a.standing t = some .settled

variable {a b : Docket τ δ} {i : Nat} {t : τ} {d : δ} {o : Bool}

/-- Whoever owes something else still does. -/
theorem exists_update {α : Type} {f : Nat → Option α} {v : Option α} {x : α} (hi : f i ≠ some x)
    (h : ∃ j, f j = some x) : ∃ j, Function.update f i v j = some x := by
  obtain ⟨j, hj⟩ := h
  have hne : j ≠ i := by
    rintro rfl
    exact hi hj
  exact ⟨j, by rw [Function.update_of_ne hne, hj]⟩

/-- What an agent owes after one agent's debt changed. -/
theorem update_cases {α : Type} {f : Nat → Option α} {v : Option α} {x : α} {j : Nat}
    (h : Function.update f i v j = some x) : (j = i ∧ v = some x) ∨ (j ≠ i ∧ f j = some x) := by
  by_cases hj : j = i
  · subst hj
    rw [Function.update_self] at h
    exact .inl ⟨rfl, h⟩
  · rw [Function.update_of_ne hj] at h
    exact .inr ⟨hj, h⟩

/-- A subject with a file is not live. -/
theorem Agrees.not_live (ha : a.Agrees) (hd : a.filed d = some (t, o)) :
    a.standing t ≠ some .live := by
  intro hlive
  rcases ha.stood hd with h | h <;> rw [hlive] at h <;> cases h

theorem Agrees.move (ha : a.Agrees)
    (standing : ∀ t, b.standing t = a.standing t ∨
      (a.standing t = none ∨ a.standing t = some .live) ∧
        (b.standing t = some .live ∨ b.standing t = some .settled))
    (filed : b.filed = a.filed) (opening : b.opening = a.opening)
    (closing : b.closing = a.closing) : b.Agrees := by
  have hdisputed : ∀ t, b.standing t = some .disputed ↔ a.standing t = some .disputed := by
    intro t
    rcases standing t with h | ⟨hbefore | hbefore, hafter | hafter⟩ <;> simp [*]
  have hsettled : ∀ t, a.standing t = some .settled → b.standing t = some .settled := by
    intro t ht
    rcases standing t with h | ⟨hbefore | hbefore, -⟩
    · rw [h, ht]
    · rw [ht] at hbefore; cases hbefore
    · rw [ht] at hbefore; cases hbefore
  constructor
  case one => rw [filed]; exact ha.one
  case stood =>
      intro d t o hd
      rw [filed] at hd
      exact (ha.stood hd).imp (hdisputed t).mpr (hsettled t)
  case frozen =>
      intro d t hd
      rw [filed] at hd
      rw [closing]
      exact (ha.frozen hd).imp (hdisputed t).mpr id
  case disputed =>
      intro t ht
      rw [filed, opening]
      exact ha.disputed ((hdisputed t).mp ht)
  case opening =>
      intro i t hi
      rw [opening] at hi
      rw [filed]
      exact (ha.opening hi).imp (hdisputed t).mpr id
  case alone => rw [opening]; exact ha.alone
  case closing =>
      intro i d hi
      rw [closing] at hi
      rw [filed]
      obtain ⟨t, o, hd, ht⟩ := ha.closing hi
      exact ⟨t, o, hd, hsettled t ht⟩

/-- The empty register. -/
theorem agrees_empty (hstanding : ∀ t, a.standing t = none) (hfiled : ∀ d, a.filed d = none)
    (hopening : ∀ i, a.opening i = none) (hclosing : ∀ i, a.closing i = none) : a.Agrees := by
  constructor <;> simp [hstanding, hfiled, hopening, hclosing]

/-- **Where nothing is owed,** a subject is in dispute just when a dispute about it is open. -/
theorem Agrees.settled (ha : a.Agrees) (hopening : ∀ i, a.opening i = none)
    (hclosing : ∀ i, a.closing i = none) (t : τ) :
    a.standing t = some .disputed ↔ ∃ d, a.filed d = some (t, true) := by
  constructor
  · intro ht
    refine (ha.disputed ht).elim id fun ⟨i, hi⟩ => ?_
    rw [hopening] at hi
    cases hi
  · rintro ⟨d, hd⟩
    refine (ha.frozen hd).elim id fun ⟨i, hi⟩ => ?_
    rw [hclosing] at hi
    cases hi

/-! ## Steps -/

/-- A step of one agent, or of the world around. -/
inductive Step [DecidableEq τ] [DecidableEq δ] (a : Docket τ δ) : Docket τ δ → Prop
  /-- Subjects appear, move on, and are settled without a dispute. -/
  | move {b : Docket τ δ}
      (standing : ∀ t, b.standing t = a.standing t ∨
        (a.standing t = none ∨ a.standing t = some .live) ∧
          (b.standing t = some .live ∨ b.standing t = some .settled))
      (filed : b.filed = a.filed) (opening : b.opening = a.opening)
      (closing : b.closing = a.closing) : Step a b
  | raise {i : Nat} {t : τ} (live : a.standing t = some .live) (idle : a.opening i = none) :
      Step a { a with
        standing := Function.update a.standing t (some .disputed)
        opening := Function.update a.opening i (some t) }
  | file {i : Nat} {t : τ} {d : δ} (owed : a.opening i = some t) (fresh : a.filed d = none) :
      Step a { a with
        filed := Function.update a.filed d (some (t, true))
        opening := Function.update a.opening i none }
  | resolve {i : Nat} {t : τ} {d : δ} {isOpen : Bool} (about : a.filed d = some (t, isOpen))
      (disputed : a.standing t = some .disputed) (idle : a.closing i = none) :
      Step a { a with
        standing := Function.update a.standing t (some .settled)
        closing := Function.update a.closing i (some d) }
  | close {i : Nat} {t : τ} {d : δ} {isOpen : Bool} (owed : a.closing i = some d)
      (about : a.filed d = some (t, isOpen)) :
      Step a { a with
        filed := Function.update a.filed d (some (t, false))
        closing := Function.update a.closing i none }

theorem Agrees.raise [DecidableEq τ] (ha : a.Agrees) (live : a.standing t = some .live)
    (idle : a.opening i = none) :
    Agrees { a with
      standing := Function.update a.standing t (some .disputed)
      opening := Function.update a.opening i (some t) } := by
  have hother : ∀ {t'}, t' ≠ t →
      Function.update a.standing t (some Standing.disputed) t' = a.standing t' :=
    fun hne => Function.update_of_ne hne _ _
  have hfiled : ∀ {d t' o}, a.filed d = some (t', o) → t' ≠ t := by
    rintro d t' o hd rfl
    exact ha.not_live hd live
  have howed : ∀ {j t'}, a.opening j = some t' → t' ≠ t := by
    rintro j t' hj rfl
    have h := (ha.opening hj).1
    rw [live] at h
    cases h
  constructor
  case one => exact ha.one
  case stood =>
      intro d t' o hd
      exact (ha.stood hd).imp (hother (hfiled hd)).trans (hother (hfiled hd)).trans
  case frozen =>
      intro d t' hd
      exact (ha.frozen hd).imp (hother (hfiled hd)).trans id
  case disputed =>
      intro t' ht'
      by_cases hne : t' = t
      · exact .inr ⟨i, by rw [hne]; exact Function.update_self _ _ _⟩
      · exact (ha.disputed ((hother hne).symm.trans ht')).imp id (exists_update (by simp [idle]))
  case opening =>
      intro j t' hj
      rcases update_cases hj with ⟨-, heq⟩ | ⟨-, hj⟩
      · obtain rfl := Option.some.inj heq
        exact ⟨Function.update_self _ _ _, fun d o hd => hfiled hd rfl⟩
      · exact (ha.opening hj).imp (hother (howed hj)).trans id
  case alone =>
      intro j k t' hj hk
      rcases update_cases hj with ⟨hji, heq⟩ | ⟨-, hj'⟩ <;>
        rcases update_cases hk with ⟨hki, heq'⟩ | ⟨-, hk'⟩
      · exact hji.trans hki.symm
      · exact absurd (Option.some.inj heq).symm (howed hk')
      · exact absurd (Option.some.inj heq').symm (howed hj')
      · exact ha.alone hj' hk'
  case closing =>
      intro j d hj
      obtain ⟨t', o, hd, ht'⟩ := ha.closing hj
      exact ⟨t', o, hd, (hother (hfiled hd)).trans ht'⟩

theorem Agrees.file [DecidableEq δ] (ha : a.Agrees) (owed : a.opening i = some t) (fresh : a.filed d = none) :
    Agrees { a with
      filed := Function.update a.filed d (some (t, true))
      opening := Function.update a.opening i none } := by
  obtain ⟨hdisputed, hnone⟩ := ha.opening owed
  -- the new file, or one of before, about another subject
  have hfiled : ∀ {d' t' o'}, Function.update a.filed d (some (t, true)) d' = some (t', o') →
      (d' = d ∧ t' = t) ∨ d' ≠ d ∧ t' ≠ t ∧ a.filed d' = some (t', o') := by
    intro d' t' o' hd'
    by_cases hne : d' = d
    · rw [hne, Function.update_self, Option.some.injEq, Prod.mk.injEq] at hd'
      exact .inl ⟨hne, hd'.1.symm⟩
    · rw [Function.update_of_ne hne] at hd'
      refine .inr ⟨hne, ?_, hd'⟩
      rintro rfl
      exact hnone _ _ hd'
  have hkeep : ∀ {d' x}, a.filed d' = some x →
      Function.update a.filed d (some (t, true)) d' = some x := by
    intro d' x hd'
    have hne : d' ≠ d := by
      rintro rfl
      rw [fresh] at hd'
      cases hd'
    rw [Function.update_of_ne hne, hd']
  constructor
  case one =>
      intro d' d'' t' o' o'' hd' hd''
      rcases hfiled hd' with ⟨rfl, rfl⟩ | ⟨-, hne, hd'⟩ <;>
        rcases hfiled hd'' with ⟨rfl, heq⟩ | ⟨-, hne', hd''⟩
      · rfl
      · exact absurd rfl hne'
      · exact absurd heq hne
      · exact ha.one hd' hd''
  case stood =>
      intro d' t' o' hd'
      rcases hfiled hd' with ⟨-, rfl⟩ | ⟨-, -, hd'⟩
      · exact .inl hdisputed
      · exact ha.stood hd'
  case frozen =>
      intro d' t' hd'
      rcases hfiled hd' with ⟨-, rfl⟩ | ⟨-, -, hd'⟩
      · exact .inl hdisputed
      · exact ha.frozen hd'
  case disputed =>
      intro t' ht'
      by_cases hne : t' = t
      · exact .inl ⟨d, by rw [hne]; exact Function.update_self _ _ _⟩
      · refine (ha.disputed ht').imp (fun ⟨d', hd'⟩ => ⟨d', hkeep hd'⟩) (exists_update ?_)
        rw [owed, ne_eq, Option.some.injEq]
        exact fun heq => hne heq.symm
  case opening =>
      intro j t' hj
      rcases update_cases hj with ⟨-, heq⟩ | ⟨hji, hj'⟩
      · cases heq
      · refine ⟨(ha.opening hj').1, fun d' o' hd' => ?_⟩
        rcases hfiled hd' with ⟨-, rfl⟩ | ⟨-, -, hd''⟩
        · exact hji (ha.alone hj' owed)
        · exact (ha.opening hj').2 d' o' hd''
  case alone =>
      intro j k t' hj hk
      rcases update_cases hj with ⟨-, heq⟩ | ⟨-, hj⟩
      · cases heq
      · rcases update_cases hk with ⟨-, heq⟩ | ⟨-, hk⟩
        · cases heq
        · exact ha.alone hj hk
  case closing =>
      intro j d' hj
      obtain ⟨t', o', hd', ht'⟩ := ha.closing hj
      exact ⟨t', o', hkeep hd', ht'⟩

theorem Agrees.resolve [DecidableEq τ] (ha : a.Agrees) (about : a.filed d = some (t, o))
    (disputed : a.standing t = some .disputed) (idle : a.closing i = none) :
    Agrees { a with
      standing := Function.update a.standing t (some .settled)
      closing := Function.update a.closing i (some d) } := by
  have hother : ∀ {t'}, t' ≠ t →
      Function.update a.standing t (some Standing.settled) t' = a.standing t' :=
    fun hne => Function.update_of_ne hne _ _
  have hself : Function.update a.standing t (some Standing.settled) t = some .settled :=
    Function.update_self _ _ _
  constructor
  case one => exact ha.one
  case stood =>
      intro d' t' o' hd'
      by_cases hne : t' = t
      · exact .inr (by rw [hne]; exact hself)
      · exact (ha.stood hd').imp (hother hne).trans (hother hne).trans
  case frozen =>
      intro d' t' hd'
      by_cases hne : t' = t
      · subst hne
        exact .inr ⟨i, by rw [ha.one hd' about]; exact Function.update_self _ _ _⟩
      · exact (ha.frozen hd').imp (hother hne).trans (exists_update (by simp [idle]))
  case disputed =>
      intro t' ht'
      by_cases hne : t' = t
      · rw [hne] at ht'
        cases hself.symm.trans ht'
      · exact ha.disputed ((hother hne).symm.trans ht')
  case opening =>
      intro j t' hj
      have hne : t' ≠ t := by
        rintro rfl
        exact (ha.opening hj).2 _ _ about
      exact (ha.opening hj).imp (hother hne).trans id
  case alone => exact ha.alone
  case closing =>
      intro j d' hj
      rcases update_cases hj with ⟨-, heq⟩ | ⟨-, hj⟩
      · obtain rfl := Option.some.inj heq
        exact ⟨t, o, about, hself⟩
      · obtain ⟨t', o', hd', ht'⟩ := ha.closing hj
        have hne : t' ≠ t := by
          rintro rfl
          rw [disputed] at ht'
          cases ht'
        exact ⟨t', o', hd', (hother hne).trans ht'⟩

theorem Agrees.close [DecidableEq δ] (ha : a.Agrees) (owed : a.closing i = some d)
    (about : a.filed d = some (t, o)) :
    Agrees { a with
      filed := Function.update a.filed d (some (t, false))
      closing := Function.update a.closing i none } := by
  have hsettled : a.standing t = some .settled := by
    obtain ⟨t', o', hd, ht⟩ := ha.closing owed
    rw [about, Option.some.injEq, Prod.mk.injEq] at hd
    rw [hd.1, ht]
  -- every file is still about what it was, and none was opened
  have hfiled : ∀ {d' t' o'}, Function.update a.filed d (some (t, false)) d' = some (t', o') →
      ∃ o'', a.filed d' = some (t', o'') ∧ (o' = true → d' ≠ d ∧ a.filed d' = some (t', true)) := by
    intro d' t' o' hd'
    by_cases hne : d' = d
    · rw [hne, Function.update_self, Option.some.injEq, Prod.mk.injEq] at hd'
      obtain ⟨rfl, rfl⟩ := hd'
      exact ⟨o, hne ▸ about, fun h => by cases h⟩
    · rw [Function.update_of_ne hne] at hd'
      refine ⟨o', hd', ?_⟩
      rintro rfl
      exact ⟨hne, hd'⟩
  constructor
  case one =>
      intro d' d'' t' o' o'' hd' hd''
      obtain ⟨_, hd', -⟩ := hfiled hd'
      obtain ⟨_, hd'', -⟩ := hfiled hd''
      exact ha.one hd' hd''
  case stood =>
      intro d' t' o' hd'
      obtain ⟨_, hd', -⟩ := hfiled hd'
      exact ha.stood hd'
  case frozen =>
      intro d' t' hd'
      obtain ⟨_, -, hopen⟩ := hfiled hd'
      obtain ⟨hne, hd'⟩ := hopen rfl
      refine (ha.frozen hd').imp id (exists_update ?_)
      rw [owed, ne_eq, Option.some.injEq]
      exact fun heq => hne heq.symm
  case disputed =>
      intro t' ht'
      refine (ha.disputed ht').imp (fun ⟨d', hd'⟩ => ⟨d', ?_⟩) id
      have hne : d' ≠ d := by
        rintro rfl
        rw [about, Option.some.injEq, Prod.mk.injEq] at hd'
        rw [← hd'.1, hsettled] at ht'
        cases ht'
      exact (Function.update_of_ne hne _ _).trans hd'
  case opening =>
      intro j t' hj
      refine ⟨(ha.opening hj).1, fun d' o' hd' => ?_⟩
      obtain ⟨o'', hd', -⟩ := hfiled hd'
      exact (ha.opening hj).2 d' o'' hd'
  case alone => exact ha.alone
  case closing =>
      intro j d' hj
      rcases update_cases hj with ⟨-, heq⟩ | ⟨-, hj⟩
      · cases heq
      · by_cases hne : d' = d
        · exact ⟨t, false, by rw [hne]; exact Function.update_self _ _ _, hsettled⟩
        · obtain ⟨t', o', hd', ht'⟩ := ha.closing hj
          exact ⟨t', o', (Function.update_of_ne hne _ _).trans hd', ht'⟩

/-- **Step lemma.** -/
theorem Agrees.step [DecidableEq τ] [DecidableEq δ] (ha : a.Agrees) (h : a.Step b) : b.Agrees := by
  cases h with
  | move standing filed opening closing => exact ha.move standing filed opening closing
  | raise live idle => exact ha.raise live idle
  | file owed fresh => exact ha.file owed fresh
  | resolve about disputed idle => exact ha.resolve about disputed idle
  | close owed about => exact ha.close owed about

end Docket

end Meduman
