import Meduman.Effect.Embed
import Meduman.Effect.Pool

/-!
# One call at a time

The undisturbed behaviour of a program: no other call and no move of the environment comes between
its operations.

* `Prog.Ends` : the program ran to its end, every outcome it met being acceptable
* `Prog.EndsBy` : how it ended, with the history it left
* `Prog.Stops` : the program was cut off with operations left
* `ends_bind`, `stops_bind`, … : both, through sequencing and error handling
* `Prog.Uses.exists_ends` : programs that never get stuck
* `Prog.playWith`, `Prog.playWith_await` : a run by its outcomes
* `ends_embed` : how an embedded program ends
* `Prog.Ends.keeps`, `Prog.Stops.keeps` : what every operation of a program keeps, the program keeps
* `Prog.Stops.reaches`, `Prog.Ends.reaches` : both are runs of the service
-/

set_option autoImplicit false

namespace Effect

variable {Op : Type} {Ans : Op → Type} {Err : Type} {V : Service Ans Err} {α β : Type}

namespace Prog

/-- From world `w` the program ends with result `r` in world `w'`, every outcome satisfying `ok`. -/
def Ends (V : Service Ans Err) (ok : V.Choice → Prop) :
    Prog Ans Err α → V.World → Except Err α → V.World → Prop
  | .done r₀, w, r, w' => r = r₀ ∧ w' = w
  | .call op k, w, r, w' =>
      ∃ choice a u, ok choice ∧ V.exec op choice w = some (a, u) ∧ Ends V ok (k a) u r w'

/-- From world `w` the program got as far as world `w'` and was cut off there. -/
def Stops (V : Service Ans Err) : Prog Ans Err α → V.World → V.World → Prop
  | .done _, _, _ => False
  | .call op k, w, w' =>
      w' = w ∨ ∃ choice a u, V.exec op choice w = some (a, u) ∧ Stops V (k a) u w'

/-- Any outcome is acceptable. -/
abbrev anyOutcome (V : Service Ans Err) : V.Choice → Prop := fun _ => True

/-- The program ran to its end or was cut off, in world `w'`. -/
def Partly (V : Service Ans Err) (p : Prog Ans Err α) (w w' : V.World) : Prop :=
  p.Stops V w w' ∨ ∃ r, p.Ends V (anyOutcome V) w r w'

/-- What follows the first part of a sequenced program. -/
def After (V : Service Ans Err) (ok : V.Choice → Prop) (f : α → Prog Ans Err β) :
    Except Err α → V.World → Except Err β → V.World → Prop
  | .ok a, u, r, w' => (f a).Ends V ok u r w'
  | .error e, u, r, w' => r = .error e ∧ w' = u

/-- What follows the protected part of a program. -/
def Handled (V : Service Ans Err) (ok : V.Choice → Prop) (handler : Err → Prog Ans Err α) :
    Except Err α → V.World → Except Err α → V.World → Prop
  | .ok a, u, r, w' => r = .ok a ∧ w' = u
  | .error e, u, r, w' => (handler e).Ends V ok u r w'

/-- From world `w` and history `h` the program ends with result `r` in world `w'`, with history `h'`. -/
def EndsBy (V : Service Ans Err) (ok : V.Choice → Prop) :
    Prog Ans Err α → V.World → History Ans Err → Except Err α → V.World → History Ans Err → Prop
  | .done r₀, w, h, r, w', h' => r = r₀ ∧ w' = w ∧ h' = h
  | .call op k, w, h, r, w', h' =>
      ∃ choice a u, ok choice ∧ V.exec op choice w = some (a, u) ∧
        EndsBy V ok (k a) u (⟨op, a⟩ :: h) r w' h'

variable {ok : V.Choice → Prop} {w w' u : V.World}

@[simp] theorem ends_done (r₀ r : Except Err α) :
    (done r₀).Ends V ok w r w' ↔ r = r₀ ∧ w' = w := Iff.rfl

@[simp] theorem ends_throw (e : Err) (r : Except Err α) :
    (throw e : Prog Ans Err α).Ends V ok w r w' ↔ r = .error e ∧ w' = w := Iff.rfl

@[simp] theorem after_ok (f : α → Prog Ans Err β) (a : α) (r : Except Err β) :
    After V ok f (.ok a) u r w' ↔ (f a).Ends V ok u r w' := Iff.rfl

@[simp] theorem after_error (f : α → Prog Ans Err β) (e : Err) (r : Except Err β) :
    After V ok f (.error e) u r w' ↔ r = .error e ∧ w' = u := Iff.rfl

@[simp] theorem handled_ok (handler : Err → Prog Ans Err α) (a : α) (r : Except Err α) :
    Handled V ok handler (.ok a) u r w' ↔ r = .ok a ∧ w' = u := Iff.rfl

@[simp] theorem handled_error (handler : Err → Prog Ans Err α) (e : Err) (r : Except Err α) :
    Handled V ok handler (.error e) u r w' ↔ (handler e).Ends V ok u r w' := Iff.rfl

theorem ends_call (op : Op) (k : Except Err (Ans op) → Prog Ans Err α) (r : Except Err α) :
    (call op k).Ends V ok w r w' ↔
      ∃ choice a u, ok choice ∧ V.exec op choice w = some (a, u) ∧ (k a).Ends V ok u r w' :=
  Iff.rfl

/-- **Sequencing.** -/
theorem ends_bind (p : Prog Ans Err α) (f : α → Prog Ans Err β) (r : Except Err β) :
    (p >>= f).Ends V ok w r w' ↔ ∃ a u, p.Ends V ok w a u ∧ After V ok f a u r w' := by
  induction p generalizing w with
  | done r₀ =>
      refine ⟨fun h => ⟨r₀, w, ⟨rfl, rfl⟩, ?_⟩, ?_⟩
      · cases r₀ <;> exact h
      · rintro ⟨a, u, ⟨rfl, rfl⟩, h⟩
        cases a <;> exact h
  | call op k ih =>
      simp only [bind_call, ends_call, ih]
      constructor
      · rintro ⟨c, b, v, hc, he, a, u, hp, hf⟩
        exact ⟨a, u, ⟨c, b, v, hc, he, hp⟩, hf⟩
      · rintro ⟨a, u, ⟨c, b, v, hc, he, hp⟩, hf⟩
        exact ⟨c, b, v, hc, he, a, u, hp, hf⟩

/-- **Error handling.** -/
theorem ends_tryCatch (p : Prog Ans Err α) (handler : Err → Prog Ans Err α) (r : Except Err α) :
    (p.tryCatch handler).Ends V ok w r w' ↔
      ∃ a u, p.Ends V ok w a u ∧ Handled V ok handler a u r w' := by
  induction p generalizing w with
  | done r₀ =>
      refine ⟨fun h => ⟨r₀, w, ⟨rfl, rfl⟩, ?_⟩, ?_⟩
      · cases r₀ <;> exact h
      · rintro ⟨a, u, ⟨rfl, rfl⟩, h⟩
        cases a <;> exact h
  | call op k ih =>
      simp only [tryCatch, ends_call, ih]
      constructor
      · rintro ⟨c, b, v, hc, he, a, u, hp, hf⟩
        exact ⟨a, u, ⟨c, b, v, hc, he, hp⟩, hf⟩
      · rintro ⟨a, u, ⟨c, b, v, hc, he, hp⟩, hf⟩
        exact ⟨c, b, v, hc, he, a, u, hp, hf⟩

@[simp] theorem ends_perform (op : Op) (r : Except Err (Ans op)) :
    (perform op).Ends V ok w r w' ↔ ∃ choice, ok choice ∧ V.exec op choice w = some (r, w') := by
  constructor
  · rintro ⟨c, a, u, hc, he, rfl, rfl⟩
    exact ⟨c, hc, he⟩
  · rintro ⟨c, hc, he⟩
    exact ⟨c, r, w', hc, he, rfl, rfl⟩

theorem Ends.mono {ok' : V.Choice → Prop} {p : Prog Ans Err α} {r : Except Err α}
    (h : p.Ends V ok w r w') (hok : ∀ choice, ok choice → ok' choice) : p.Ends V ok' w r w' := by
  induction p generalizing w with
  | done r₀ => exact h
  | call op k ih =>
      obtain ⟨c, a, u, hc, he, hk⟩ := h
      exact ⟨c, a, u, hok c hc, he, ih a hk⟩

theorem EndsBy.ends {p : Prog Ans Err α} {r : Except Err α} {h h' : History Ans Err}
    (hp : p.EndsBy V ok w h r w' h') : p.Ends V ok w r w' := by
  induction p generalizing w h with
  | done r₀ => exact ⟨hp.1, hp.2.1⟩
  | call op k ih =>
      obtain ⟨c, a, u, hc, he, hk⟩ := hp
      exact ⟨c, a, u, hc, he, ih a hk⟩

/-- What a program leaves, it leaves where it ends. -/
theorem EndsBy.along {P : Event Ans Err → Prop} {J : History Ans Err → Op → Prop}
    {Q : Except Err α → History Ans Err → Prop} {p : Prog Ans Err α} {r : Except Err α}
    {h h' : History Ans Err} (hp : p.EndsBy V ok w h r w' h') (hQ : p.Along P J Q h)
    (answer : ∀ {op choice u a v}, V.exec op choice u = some (a, v) → P ⟨op, a⟩) : Q r h' := by
  induction p generalizing w h with
  | done r₀ =>
      obtain ⟨rfl, -, rfl⟩ := hp
      exact hQ
  | call op k ih =>
      obtain ⟨c, a, u, -, he, hk⟩ := hp
      exact ih a hk (hQ.2 a (answer he))

/-- **Sequencing of interrupted programs.** -/
theorem stops_bind (p : Prog Ans Err α) (f : α → Prog Ans Err β) :
    (p >>= f).Stops V w w' ↔
      p.Stops V w w' ∨ ∃ a u, p.Ends V (anyOutcome V) w (.ok a) u ∧ (f a).Stops V u w' := by
  induction p generalizing w with
  | done r₀ =>
      constructor
      · intro h
        cases r₀ with
        | ok a => exact .inr ⟨a, w, ⟨rfl, rfl⟩, h⟩
        | error e => exact h.elim
      · rintro (h | ⟨a, u, ⟨rfl, rfl⟩, hf⟩)
        · exact h.elim
        · exact hf
  | call op k ih =>
      simp only [bind_call, Stops, ends_call, ih]
      constructor
      · rintro (rfl | ⟨c, b, v, he, hp | ⟨a, u, hp, hf⟩⟩)
        · exact .inl (.inl rfl)
        · exact .inl (.inr ⟨c, b, v, he, hp⟩)
        · exact .inr ⟨a, u, ⟨c, b, v, trivial, he, hp⟩, hf⟩
      · rintro ((rfl | ⟨c, b, v, he, hp⟩) | ⟨a, u, ⟨c, b, v, -, he, hp⟩, hf⟩)
        · exact .inl rfl
        · exact .inr ⟨c, b, v, he, .inl hp⟩
        · exact .inr ⟨c, b, v, he, .inr ⟨a, u, hp, hf⟩⟩

/-- Only the result of a mapped program differs. -/
theorem ends_map (g : α → β) (p : Prog Ans Err α) (r : Except Err β) :
    (g <$> p).Ends V ok w r w' ↔ ∃ a, p.Ends V ok w a w' ∧ r = a.map g := by
  rw [map_eq, ends_bind]
  constructor
  · rintro ⟨a, u, hp, hf⟩
    cases a with
    | ok a => obtain ⟨rfl, rfl⟩ := hf; exact ⟨_, hp, rfl⟩
    | error e => obtain ⟨rfl, rfl⟩ := hf; exact ⟨_, hp, rfl⟩
  · rintro ⟨a, hp, rfl⟩
    refine ⟨a, w', hp, ?_⟩
    cases a <;> exact ⟨rfl, rfl⟩

theorem partly_map {g : α → β} {p : Prog Ans Err α} (h : p.Partly V w w') :
    (g <$> p).Partly V w w' := by
  rcases h with h | ⟨r, h⟩
  · exact .inl ((stops_bind _ _).mpr (.inl h))
  · exact .inr ⟨_, (ends_map g p _).mpr ⟨r, h, rfl⟩⟩

/-- A program each of whose operations can happen in every world comes to its end. -/
theorem Uses.exists_ends {p : Prog Ans Err α}
    (hp : p.Uses fun op => ∀ w, ∃ choice a u, ok choice ∧ V.exec op choice w = some (a, u))
    (w : V.World) : ∃ r w', p.Ends V ok w r w' := by
  induction p generalizing w with
  | done r => exact ⟨r, w, rfl, rfl⟩
  | call op k ih =>
      obtain ⟨choice, a, u, hc, he⟩ := hp.1 w
      obtain ⟨r, w', hk⟩ := ih a (hp.2 a) u
      exact ⟨r, w', choice, a, u, hc, he, hk⟩

/-- Run a program undisturbed, its operations meeting these outcomes. -/
def playWith (V : Service Ans Err) :
    Prog Ans Err α → List V.Choice → V.World → Option (Except Err α × V.World)
  | .done r, _, w => some (r, w)
  | .call _ _, [], _ => none
  | .call op k, choice :: choices, w =>
      (V.exec op choice w).bind fun r => (k r.1).playWith V choices r.2

theorem ends_of_playWith {p : Prog Ans Err α} {choices : List V.Choice} {r : Except Err α}
    (hok : ∀ choice ∈ choices, ok choice) (h : p.playWith V choices w = some (r, w')) :
    p.Ends V ok w r w' := by
  induction p generalizing w choices with
  | done r₀ =>
      obtain ⟨rfl, rfl⟩ := Prod.ext_iff.mp (Option.some.inj h)
      exact ⟨rfl, rfl⟩
  | call op k ih =>
      cases choices with
      | nil => cases h
      | cons choice choices =>
          obtain ⟨⟨a, u⟩, he, hk⟩ := Option.bind_eq_some_iff.mp h
          exact ⟨choice, a, u, hok choice List.mem_cons_self, he,
            ih a (fun choice hc => hok choice (List.mem_cons_of_mem _ hc)) hk⟩

/-- The first outcome is that of the first operation. -/
theorem playWith_await {op : Op} {f : Ans op → Prog Ans Err β} {choices : List V.Choice}
    {r : Except Err β} (h : (perform op >>= f).playWith V choices w = some (r, w')) :
    ∃ choice rest a u, choices = choice :: rest ∧ V.exec op choice w = some (a, u) ∧
      ((done a : Prog Ans Err (Ans op)) >>= f).playWith V rest u = some (r, w') := by
  cases choices with
  | nil => cases h
  | cons choice rest =>
      obtain ⟨⟨a, u⟩, he, hk⟩ := Option.bind_eq_some_iff.mp h
      exact ⟨choice, rest, a, u, rfl, he, hk⟩

/-! ## In another service -/

section Embed

variable {Op' : Type} {Ans' : Op' → Type} {Err' : Type} {V' : Service Ans' Err'}
  {ι : Embedding Ans Err Ans' Err'} {ok' : V'.Choice → Prop} {S : V'.World → V.World → Prop}

/-- **An embedded program ends** as it did, where each of its operations is, as it sees it, one that
can happen. -/
theorem ends_embed
    (step : ∀ {op choice' a' u' v' u}, S u' u → ok' choice' →
      V'.exec (ι.op op) choice' u' = some (a', v') →
      ∃ choice v, ok choice ∧ V.exec op choice u = some (ι.back op a', v) ∧ S v' v)
    {p : Prog Ans Err α} {u' v' : V'.World} (hS : S u' u) {r' : Except Err' α}
    (h : (p.embed ι).Ends V' ok' u' r' v') :
    ∃ r v, p.Ends V ok u r v ∧ r' = r.mapError ι.err ∧ S v' v := by
  induction p generalizing u u' with
  | done r =>
      cases r <;> obtain ⟨rfl, rfl⟩ := h <;> exact ⟨_, u, ⟨rfl, rfl⟩, rfl, hS⟩
  | call op k ih =>
      obtain ⟨choice', a', w', hc', he', hk⟩ := h
      obtain ⟨choice, w, hc, he, hw⟩ := step hS hc' he'
      obtain ⟨r, v, hp, hr, hv⟩ := ih _ hw hk
      exact ⟨r, v, ⟨choice, _, w, hc, he, hp⟩, hr, hv⟩

end Embed

/-! ## What a program keeps -/

section Keeps

variable {A : Op → Prop} {R : V.World → V.World → Prop} {p : Prog Ans Err α}

theorem Ends.keeps (hrefl : ∀ w, R w w) (htrans : ∀ {u v w}, R u v → R v w → R u w)
    (hstep : ∀ {op choice u a v}, A op → V.exec op choice u = some (a, v) → R u v)
    (hp : p.Uses A) {r : Except Err α} (h : p.Ends V ok w r w') : R w w' := by
  induction p generalizing w with
  | done r₀ => rw [h.2]; exact hrefl w
  | call op k ih =>
      obtain ⟨c, a, u, -, he, hk⟩ := h
      exact htrans (hstep hp.1 he) (ih a (hp.2 a) hk)

theorem Stops.keeps (hrefl : ∀ w, R w w) (htrans : ∀ {u v w}, R u v → R v w → R u w)
    (hstep : ∀ {op choice u a v}, A op → V.exec op choice u = some (a, v) → R u v)
    (hp : p.Uses A) (h : p.Stops V w w') : R w w' := by
  induction p generalizing w with
  | done r₀ => exact h.elim
  | call op k ih =>
      rcases h with rfl | ⟨c, a, u, he, hk⟩
      · exact hrefl _
      · exact htrans (hstep hp.1 he) (ih a (hp.2 a) hk)

end Keeps

/-! ## Undisturbed calls are runs -/

/-- A process goes on undisturbed. -/
theorem Ends.reaches {p : Prog Ans Err V.Reply} {r : Except Err V.Reply}
    (h : p.Ends V ok w r w') {x : Config V} (hw : x.world = w) {i : Nat} {c : V.Call}
    {hist : History Ans Err} (hi : x.procs[i]? = some ⟨c, hist, some p⟩) :
    ∃ y, Reaches Guard.free x y ∧ y.world = w' ∧
      y.procs.map Process.call = x.procs.map Process.call := by
  induction p generalizing x w hist with
  | done r₀ => exact ⟨x, .refl, hw.trans h.2.symm, rfl⟩
  | call op k ih =>
      obtain ⟨choice, a, u, -, he, hk⟩ := h
      obtain ⟨y, hstep, hyw, hy, hcalls⟩ := Config.next_serve hi (hw ▸ he)
      obtain ⟨z, hz, hzw, hcalls'⟩ := ih a hk hyw hy
      exact ⟨z, .head ⟨_, hstep⟩ hz, hzw, hcalls'.trans hcalls⟩

theorem Stops.reaches {p : Prog Ans Err V.Reply} (h : p.Stops V w w') {x : Config V}
    (hw : x.world = w) {i : Nat} {c : V.Call} {hist : History Ans Err}
    (hi : x.procs[i]? = some ⟨c, hist, some p⟩) :
    ∃ y, Reaches Guard.free x y ∧ y.world = w' ∧
      y.procs.map Process.call = x.procs.map Process.call := by
  induction p generalizing x w hist with
  | done r₀ => exact h.elim
  | call op k ih =>
      rcases h with rfl | ⟨choice, a, u, he, hk⟩
      · exact ⟨x, .refl, hw, rfl⟩
      · obtain ⟨y, hstep, hyw, hy, hcalls⟩ := Config.next_serve hi (hw ▸ he)
        obtain ⟨z, hz, hzw, hcalls'⟩ := ih a hk hyw hy
        exact ⟨z, .head ⟨_, hstep⟩ hz, hzw, hcalls'.trans hcalls⟩

/-- **An admitted call, run undisturbed for a while, is a run of the service** in which no other call
arrives. -/
theorem Partly.reaches {x : Config V} {c : V.Call} (hadm : V.admits c x.world = true)
    (h : (V.code c).Partly V x.world w') :
    ∃ y, Reaches Guard.free x y ∧ y.world = w' ∧
      y.procs.map Process.call = x.procs.map Process.call ++ [c] := by
  have harrive : x.next Guard.free (.arrive c) =
      some { x with procs := x.procs ++ [⟨c, [], some (V.code c)⟩] } := if_pos hadm
  have hnew : (x.procs ++ [⟨c, [], some (V.code c)⟩])[x.procs.length]? =
      some ⟨c, [], some (V.code c)⟩ := List.getElem?_concat_length
  have hrun : ∃ y, Reaches Guard.free
      { x with procs := x.procs ++ [⟨c, [], some (V.code c)⟩] } y ∧ y.world = w' ∧
      y.procs.map Process.call = (x.procs ++ [(⟨c, [], some (V.code c)⟩ : Process V)]).map Process.call := by
    rcases h with h | ⟨r, h⟩
    · exact Stops.reaches h rfl hnew
    · exact Ends.reaches h rfl hnew
  obtain ⟨y, hy, hyw, hcalls⟩ := hrun
  rw [List.map_append, List.map_singleton] at hcalls
  exact ⟨y, .head ⟨_, harrive⟩ hy, hyw, hcalls⟩

end Prog

end Effect
