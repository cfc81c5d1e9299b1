import Meduman.Webhook.Received

/-!
# Who stored an event row

The row of an event key is stored once, by one delivery, and no operation of any call and no move of
the environment removes it.

* `recorded_change`, `recorded_drift` : what a step does to the recorded keys
* `StoredBy` : the delivery of a run that stored the row of a key
* `exists_storedBy` : a recorded key has one
* `storedBy_of_saw`, `StoredBy.unique` : a delivery that was answered its row is the only one
* `StoredBy.delivers` : it delivered an event of the key
-/

set_option autoImplicit false

namespace Meduman

open Effect

variable {env : Env} {u w : World} {key : String}

/-! ## Steps -/

theorem recorded_create {id : Uuid} {d : WebhookEventCreate} {t : Table WebhookEvent}
    (hwrite : u.webhookEvents.create (d.row id) = some t) :
    Recorded key { u with webhookEvents := t } ↔ Recorded key u ∨ d.providerEventId = key := by
  constructor
  · rintro ⟨e, he, hkey⟩
    rcases (Table.mem_create hwrite).mp he with he | rfl
    · exact .inl ⟨e, he, hkey⟩
    · exact .inr hkey
  · rintro (⟨e, he, hkey⟩ | hkey)
    · exact ⟨e, (Table.mem_create hwrite).mpr (.inl he), hkey⟩
    · exact ⟨_, (Table.mem_create hwrite).mpr (.inr rfl), hkey⟩

theorem recorded_congr (h : w.webhookEvents = u.webhookEvents) :
    Recorded key w ↔ Recorded key u := by rw [Recorded, Recorded, h]

/-- **One step.** Keys stay recorded, and only the operation that stores an event records a new one. -/
theorem recorded_change {op : Op} (h : Change op u w) :
    (Recorded key u → Recorded key w) ∧
      (Recorded key w → Recorded key u ∨ ∃ d, op = .webhookEventCreate d ∧ d.providerEventId = key) := by
  cases h with
  | frame same =>
      have hsame : Recorded key w ↔ Recorded key u := recorded_congr same.webhookEvents
      exact ⟨hsame.mpr, fun hrec => .inl (hsame.mp hrec)⟩
  | commit found write payments payouts webhookEvents timeline paystack =>
      have hsame : Recorded key w ↔ Recorded key u := recorded_congr webhookEvents
      exact ⟨hsame.mpr, fun hrec => .inl (hsame.mp hrec)⟩
  | @webhookEventCreate d u id t write =>
      rw [recorded_create write]
      exact ⟨.inl, fun hrec => hrec.imp_right fun hkey => ⟨d, rfl, hkey⟩⟩
  | webhookEventUpdate write =>
      rw [recorded_update write]
      exact ⟨id, .inl⟩
  | _ => exact ⟨id, .inl⟩

theorem recorded_drift {m : Move} (h : drift m u = some w) : Recorded key w ↔ Recorded key u := by
  refine recorded_congr ?_
  cases m with
  | charge reference =>
      simp only [drift] at h
      split at h <;> cases h
      rfl
  | merge source target =>
      obtain ⟨transactions, payouts, invoices, disputes, -, -, -, -, rfl⟩ := drift_merge h
      rfl
  | _ => cases h; rfl

/-- A call that was answered its row stored it. -/
theorem recorded_exec {o : Outcome} {d : WebhookEventCreate} {row : WebhookEvent}
    (h : exec (.webhookEventCreate d) o u = some (.ok row, w)) :
    ¬ Recorded d.providerEventId u ∧ Recorded d.providerEventId w := by
  rcases exec_cases h with ⟨-, e, he⟩ | ⟨s, -, rfl, ha | ⟨e, he⟩⟩
  · cases he
  · simp only [effect] at ha ⊢
    split at ha
    · cases ha
    · rename_i t hwrite
      refine ⟨?_, (recorded_create hwrite).mpr (.inr rfl)⟩
      rintro ⟨e, he, hkey⟩
      have hclash := Table.create_no_clash hwrite he
      simp [Constrained.clash, WebhookEventCreate.row, hkey] at hclash
  · cases he

/-! ## Runs -/

variable {x y : Config (core env)} {i j : Nat}

theorem recorded_next {l : Label (core env)} (h : x.next Guard.free l = some y)
    (hrec : Recorded key x.world) : Recorded key y.world := by
  rcases Config.next_cases h with ⟨c, -, hw, -⟩ | ⟨p, -, op, k, o, a, -, -, he, -⟩ |
    ⟨p, -, hw, -⟩ | ⟨m, hm, -⟩
  · rw [hw]; exact hrec
  · exact (recorded_change (exec_change he)).1 hrec
  · rw [hw]; exact hrec
  · exact (recorded_drift hm).mpr hrec

/-- **A recorded key stays recorded.** -/
theorem recorded_reaches (h : Reaches Guard.free x y) (hrec : Recorded key x.world) :
    Recorded key y.world := by
  induction h with
  | refl => exact hrec
  | tail _ hstep ih =>
      obtain ⟨l, hl⟩ := hstep
      exact recorded_next hl ih

/-- In a run to `x`, an operation of process `i` stored the row of the key. -/
def StoredBy (env : Env) (key : String) (x : Config (core env)) (i : Nat) : Prop :=
  ∃ y o z, Reachable env Guard.free y ∧ y.next Guard.free (.perform i o) = some z ∧
    Reaches Guard.free z x ∧ ¬ Recorded key y.world ∧ Recorded key z.world

theorem not_recorded_initial : ¬ Recorded key World.initial := fun ⟨e, he, _⟩ =>
  Table.not_mem_empty e he

theorem StoredBy.recorded (h : StoredBy env key x i) : Recorded key x.world := by
  obtain ⟨y, o, z, -, -, hzx, -, hz⟩ := h
  exact recorded_reaches hzx hz

/-- A recorded key was stored. -/
theorem exists_storedBy (hx : Reachable env Guard.free x) (hrec : Recorded key x.world) :
    ∃ i, StoredBy env key x i := by
  obtain ⟨y, l, z, hy, hl, hzx, hno, hyes⟩ :=
    Reaches.became (P := fun x => Recorded key x.world) hx not_recorded_initial hrec
  cases l with
  | perform i o => exact ⟨i, y, o, z, hy, hl, hzx, hno, hyes⟩
  | arrive c =>
      simp only [Config.next] at hl
      split at hl <;> cases hl
      exact absurd hyes hno
  | crash i =>
      obtain ⟨p, -, hz⟩ := Option.map_eq_some_iff.mp hl
      cases hz
      exact absurd hyes hno
  | drift m =>
      obtain ⟨v, hm, hz⟩ := Option.map_eq_some_iff.mp hl
      cases hz
      exact absurd ((recorded_drift hm).mp hyes) hno

/-- A process that was answered its row stored it. -/
theorem storedBy_of_saw (hx : Reachable env Guard.free x) {p : Process (core env)}
    (hp : x.procs[i]? = some p) {d : WebhookEventCreate} {row : WebhookEvent}
    (hsaw : Saw p.hist (.webhookEventCreate d) row) : StoredBy env d.providerEventId x i := by
  rcases Reaches.performed hx hp hsaw with ⟨q, hq, -⟩ | ⟨y, o, z, hy, hl, hzx, he⟩
  · cases hq
  · obtain ⟨hno, hyes⟩ := recorded_exec he
    exact ⟨y, o, z, hy, hl, hzx, hno, hyes⟩

/-- **No other process stored it.** -/
theorem StoredBy.unique {d : WebhookEventCreate} (h : StoredBy env d.providerEventId x i)
    {p : Process (core env)} (hp : x.procs[j]? = some p) {row : WebhookEvent}
    (hsaw : Saw p.hist (.webhookEventCreate d) row) : i = j := by
  obtain ⟨y, o, z, hy, hl, hzx, hno, hyes⟩ := h
  rcases Reaches.performed hzx hp hsaw with ⟨q, hq, hqsaw⟩ | ⟨u, o', v, hzu, -, -, he⟩
  · rcases Config.next_performed hl hq hqsaw with ⟨q', hq', hsaw'⟩ | ⟨o', hlabel, -⟩
    · exact absurd (storedBy_of_saw hy hq' hsaw').recorded hno
    · cases hlabel
      rfl
  · exact absurd (recorded_reaches hzu hyes) (recorded_exec he).1

/-- **Who stored the row of a key delivered an event of that key.** -/
theorem StoredBy.delivers (h : StoredBy env key x i) :
    ∃ p payload, x.procs[i]? = some p ∧ Delivers env p.call payload ∧ eventKey payload = key := by
  obtain ⟨y, o, z, hy, hl, hzx, hno, hyes⟩ := h
  obtain ⟨p, op, k, hp, hprog⟩ := Config.pending_of_perform hl
  obtain ⟨a, -, he, hz⟩ := Config.next_perform hp hprog hl
  obtain ⟨d, rfl, hkey⟩ := ((recorded_change (exec_change he)).2 hyes).resolve_left hno
  obtain ⟨payload, hdel, rfl⟩ := hy.holds.justified (List.mem_of_getElem? hp) hprog
  obtain ⟨q, hq, hcall, -⟩ := hzx.hist hz
  exact ⟨q, payload, hq, by rw [hcall]; exact hdel, hkey⟩

end Meduman
