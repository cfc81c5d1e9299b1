import Meduman.Linking.Merge
import Meduman.Linking.Phase

/-!
# What an operation does

* `Changes`, `exec_changes` : the changes an operation can make
* `requests_change` : a request is created, or the rows change under a map
* `row_kept`, `row_origin` : what becomes of a request, and what it was before
* `update_ok`, `cancel_ok` : what a successful write leaves
* `findByHash_ok`, `findUnique_ok` : what a read returns
* `now_le` : the clock does not run backwards
-/

set_option autoImplicit false

namespace Meduman.Linking

open Effect Chat

/-- A request after the update of the one with this identifier. -/
def LinkRequestUpdate.at (d : LinkRequestUpdate) (id : Uuid) (r : ChatLinkRequest) : ChatLinkRequest :=
  if r.id == id then d.apply r else r

/-- A request after the earlier codes of an account are superseded. -/
def supersede (targetUserId : Uuid) (resolvedAt : Int) (r : ChatLinkRequest) : ChatLinkRequest :=
  if isPendingOf targetUserId r then { r with status := .cancelled, resolvedAt := some resolvedAt }
  else r

variable {op : Op} {o : Fate Supply} {u w : World} {a : Except Err op.Ans}

/-- The changes an operation can make to the world. -/
inductive Changes (o : Fate Supply) : Op → World → World → Prop
  | same {op : Op} {u : World} : Changes o op u u
  | mint {email : String} {id : Uuid} {u : World} {t : Table AuthUser}
      (write : u.authUsers.create ⟨id, email, true⟩ = some t) :
      Changes o (.createUser email) u { u with authUsers := t }
  | identify {d : IdentityCreate} {id : Uuid} {u : World} {users : Table User} {t : Table ChatIdentity}
      (owner : users = u.users ∧ (∃ v ∈ u.users, v.id = d.authUserId) ∨
        (∀ v ∈ u.users, v.id ≠ d.authUserId) ∧ u.users.create (chatUser d) = some users)
      (write : u.chatIdentities.create (chatIdentity d id) = some t) :
      Changes o (.identityCreate d) u { u with users := users, chatIdentities := t }
  | cancel {targetUserId : Uuid} {resolvedAt : Int} {u : World} {t : Table ChatLinkRequest}
      (write : u.linkRequests.update (isPendingOf targetUserId)
        (fun r => { r with status := .cancelled, resolvedAt := some resolvedAt }) = some t) :
      Changes o (.linkRequestCancel targetUserId resolvedAt) u { u with linkRequests := t }
  | request {d : ChatLinkRequestCreate} {s : Supply} {u : World} {t : Table ChatLinkRequest}
      (supply : o.supply = some s) (unused : ∀ r ∈ u.linkRequests, r.id ≠ s.id)
      (target : ∃ v ∈ u.users, v.id = d.targetUserId)
      (write : u.linkRequests.create (d.row s.id) = some t) :
      Changes o (.linkRequestCreate d) u { u with linkRequests := t }
  | update {id : Uuid} {d : LinkRequestUpdate} {u : World} {t : Table ChatLinkRequest}
      (write : u.linkRequests.update (fun r => r.id == id) d.apply = some t) :
      Changes o (.linkRequestUpdate id d) u { u with linkRequests := t }
  | merge {source target : Uuid} {opts : MergeOptions} {u w : World} {report : MergeReport}
      (merged : merge source target opts u = .ok (report, w)) :
      Changes o (.mergeAccounts source target opts) u w
  | audit {row : AuditRow} {u : World} :
      Changes o (.auditLogCreate row) u { u with auditLogs := u.auditLogs ++ [row] }

theorem changes_identityCreate (o : Fate Supply) (d : IdentityCreate) (id : Uuid) (u : World) :
    Changes o (.identityCreate d) u (createIdentity d id u).2 := by
  unfold createIdentity
  dsimp only
  split
  · rename_i users chatIdentities husers hidentities
    refine .identify ?_ hidentities
    split at husers
    · rename_i v hfind
      obtain ⟨hv, hid⟩ := Table.find_spec hfind
      exact .inl ⟨(Option.some.inj husers).symm, v, hv, beq_iff_eq.mp hid⟩
    · rename_i hfind
      exact .inr ⟨fun v hv => by simpa using Table.find_none hfind hv, husers⟩
  · exact .same

/-- **What an operation can do.** -/
theorem exec_changes (h : backend.exec op o u = some (a, w)) : Changes o op u w := by
  rcases Backend.exec_cases h with ⟨rfl, -⟩ | ⟨s, ho, hfits, rfl, -⟩
  · exact .same
  · cases op with
    | createUser email =>
        simp only [backend, effect]
        split
        · exact .same
        · exact .mint ‹_›
    | identityCreate d => exact changes_identityCreate o d s.id u
    | linkRequestCancel target t =>
        simp only [backend, effect]
        split
        · exact .same
        · exact .cancel ‹_›
    | linkRequestCreate d =>
        simp only [backend, effect]
        split
        · exact .same
        · rename_i huser
          split
          · exact .same
          · refine .request ho (fun r hr => bne_iff_ne.mp (List.all_eq_true.mp hfits r hr)) ?_ ‹_›
            rw [Option.isNone_iff_eq_none] at huser
            obtain ⟨v, hv⟩ := Option.ne_none_iff_exists'.mp huser
            obtain ⟨hmem, hid⟩ := Table.find_spec hv
            exact ⟨v, hmem, beq_iff_eq.mp hid⟩
    | linkRequestUpdate id d =>
        simp only [backend, effect, updateRequest]
        split
        · exact .same
        · split
          · exact .same
          · exact .update ‹_›
    | mergeAccounts source target opts =>
        simp only [backend, effect]
        split
        · exact .same
        · exact .merge ‹_›
    | chatIdentityFindUniqueOrThrow id =>
        simp only [backend, effect]
        split <;> exact .same
    | auditLogCreate row => exact .audit
    | _ => exact .same

/-- **An operation leaves the requests alone,** supersedes some, creates one or updates one. -/
theorem requests_change (h : backend.exec op o u = some (a, w)) :
    w.linkRequests = u.linkRequests ∨
    (∃ target t, op = .linkRequestCancel target t ∧
      w.linkRequests.rows = u.linkRequests.rows.map (supersede target t)) ∨
    (∃ d, ∃ s : Supply, op = .linkRequestCreate d ∧ o.supply = some s ∧
      (∀ r ∈ u.linkRequests, r.id ≠ s.id) ∧ (∃ v ∈ u.users, v.id = d.targetUserId) ∧
      w.linkRequests.rows = u.linkRequests.rows ++ [d.row s.id]) ∨
    ∃ id d, op = .linkRequestUpdate id d ∧
      w.linkRequests.rows = u.linkRequests.rows.map (d.at id) := by
  cases exec_changes h with
  | cancel write => exact .inr (.inl ⟨_, _, rfl, Table.rows_update write⟩)
  | request supply unused target write =>
      exact .inr (.inr (.inl ⟨_, _, rfl, supply, unused, target, Table.rows_create write⟩))
  | update write => exact .inr (.inr (.inr ⟨_, _, rfl, Table.rows_update write⟩))
  | merge merged => exact .inl (merge_merged merged).linkRequests
  | _ => exact .inl rfl

/-- **A request stays,** but for the attempts counted, unless it is superseded or updated. -/
theorem row_kept (h : backend.exec op o u = some (a, w)) {r : ChatLinkRequest}
    (hr : r ∈ u.linkRequests) : (∃ n, { r with attemptCount := n } ∈ w.linkRequests) ∨
      (∃ target t, op = .linkRequestCancel target t ∧ isPendingOf target r = true) ∨
      ∃ d, op = .linkRequestUpdate r.id d ∧ d ≠ .countAttempt := by
  rcases requests_change h with hsame | ⟨target, t, rfl, hrows⟩ | ⟨d, s, rfl, -, -, -, hrows⟩ |
    ⟨id, d, rfl, hrows⟩
  · exact .inl ⟨r.attemptCount, hsame ▸ hr⟩
  · cases hpending : isPendingOf target r with
    | true => exact .inr (.inl ⟨target, t, rfl, hpending⟩)
    | false =>
        refine .inl ⟨r.attemptCount, Table.mem_def.mpr (hrows ▸ List.mem_map.mpr ⟨r, hr, ?_⟩)⟩
        simp [supersede, hpending]
  · exact .inl ⟨r.attemptCount, Table.mem_def.mpr (hrows ▸ List.mem_append_left _ hr)⟩
  · have hmem : d.at id r ∈ w.linkRequests :=
      Table.mem_def.mpr (hrows ▸ List.mem_map_of_mem hr)
    unfold LinkRequestUpdate.at at hmem
    split at hmem
    · rename_i hid
      cases beq_iff_eq.mp hid
      by_cases hd : d = .countAttempt
      · subst hd
        exact .inl ⟨_, hmem⟩
      · exact .inr (.inr ⟨d, rfl, hd⟩)
    · exact .inl ⟨r.attemptCount, hmem⟩

/-- **What a request was before:** the same but for the attempts counted, or a live one that is now
superseded, or nothing, or what an update made it of. -/
theorem row_origin (h : backend.exec op o u = some (a, w)) {r : ChatLinkRequest}
    (hr : r ∈ w.linkRequests) : (∃ r₀ ∈ u.linkRequests, ∃ n, r = { r₀ with attemptCount := n }) ∨
      (∃ r₀ ∈ u.linkRequests, ∃ t, r = { r₀ with status := .cancelled, resolvedAt := some t }) ∨
      (∃ d, ∃ s : Supply, op = .linkRequestCreate d ∧ o.supply = some s ∧
        (∃ v ∈ u.users, v.id = d.targetUserId) ∧ r = d.row s.id) ∨
      ∃ r₀ ∈ u.linkRequests, ∃ d, op = .linkRequestUpdate r₀.id d ∧ d ≠ .countAttempt ∧
        r = d.apply r₀ := by
  rcases requests_change h with hsame | ⟨target, t, rfl, hrows⟩ | ⟨d, s, rfl, ho, -, huser, hrows⟩ |
    ⟨id, d, rfl, hrows⟩
  · exact .inl ⟨r, hsame ▸ hr, r.attemptCount, rfl⟩
  · obtain ⟨r₀, hr₀, rfl⟩ := List.mem_map.mp (hrows ▸ Table.mem_def.mp hr)
    unfold supersede
    split
    · exact .inr (.inl ⟨r₀, hr₀, t, rfl⟩)
    · exact .inl ⟨r₀, hr₀, r₀.attemptCount, rfl⟩
  · rcases List.mem_append.mp (hrows ▸ Table.mem_def.mp hr) with hr | hr
    · exact .inl ⟨r, hr, r.attemptCount, rfl⟩
    · exact .inr (.inr (.inl ⟨d, s, rfl, ho, huser, List.mem_singleton.mp hr⟩))
  · obtain ⟨r₀, hr₀, rfl⟩ := List.mem_map.mp (hrows ▸ Table.mem_def.mp hr)
    unfold LinkRequestUpdate.at
    split
    · rename_i hid
      cases beq_iff_eq.mp hid
      by_cases hd : d = .countAttempt
      · subst hd
        exact .inl ⟨r₀, hr₀, _, rfl⟩
      · exact .inr (.inr (.inr ⟨r₀, hr₀, d, rfl, hd, rfl⟩))
    · exact .inl ⟨r₀, hr₀, r₀.attemptCount, rfl⟩

/-- Requests with one identifier are one. -/
theorem request_eq {r r' : ChatLinkRequest} (hr : r ∈ u.linkRequests) (hr' : r' ∈ u.linkRequests)
    (h : r.id = r'.id) : r = r' :=
  Table.eq_of_clash hr hr' (by simp [Constrained.clash, h])

/-- A successful update found its request. -/
theorem update_ok {id : Uuid} {d : LinkRequestUpdate}
    (h : backend.exec (.linkRequestUpdate id d) o u = some (.ok (), w)) :
    (∃ r ∈ u.linkRequests, r.id = id) ∧
      w.linkRequests.rows = u.linkRequests.rows.map (d.at id) := by
  obtain ⟨s, -, heff⟩ := Backend.exec_ok h
  simp only [backend, effect, updateRequest] at heff
  split at heff
  · cases heff
  · rename_i r hfind
    split at heff
    · cases heff
    · rename_i linkRequests hupdate
      cases heff
      obtain ⟨hr, hid⟩ := Table.find_spec hfind
      exact ⟨⟨r, hr, beq_iff_eq.mp hid⟩, Table.rows_update hupdate⟩

theorem cancel_ok {target : Uuid} {t : Int} {n : Nat}
    (h : backend.exec (.linkRequestCancel target t) o u = some (.ok n, w)) :
    w.linkRequests.rows = u.linkRequests.rows.map (supersede target t) := by
  obtain ⟨s, -, heff⟩ := Backend.exec_ok h
  simp only [backend, effect] at heff
  split at heff
  · cases heff
  · cases heff
    exact Table.rows_update ‹_›

theorem findByHash_ok {codeHash : String} {r : ChatLinkRequest}
    (h : backend.exec (.linkRequestFindByHash codeHash) o u = some (.ok (some r), w)) :
    r ∈ u.linkRequests ∧ r.codeHash = codeHash ∧ w = u := by
  obtain ⟨s, -, heff⟩ := Backend.exec_ok h
  obtain ⟨hfind, rfl⟩ := Prod.ext_iff.mp heff
  obtain ⟨hr, hhash⟩ := Table.find_spec (Except.ok.inj hfind)
  exact ⟨hr, beq_iff_eq.mp hhash, rfl⟩

theorem findUnique_ok {id : Uuid} {r : ChatLinkRequest}
    (h : backend.exec (.linkRequestFindUnique id) o u = some (.ok (some r), w)) :
    r ∈ u.linkRequests ∧ r.id = id ∧ w = u := by
  obtain ⟨s, -, heff⟩ := Backend.exec_ok h
  obtain ⟨hfind, rfl⟩ := Prod.ext_iff.mp heff
  obtain ⟨hr, hid⟩ := Table.find_spec (Except.ok.inj hfind)
  exact ⟨hr, beq_iff_eq.mp hid, rfl⟩

/-! ## The clock -/

theorem clock_exec (h : backend.exec op o u = some (a, w)) : w.clock = u.clock := by
  cases exec_changes h with
  | merge merged => exact (merge_merged merged).clock
  | _ => rfl

theorem now_ok {t : Int} (h : backend.exec .now o u = some (.ok t, w)) : t = u.clock ∧ w = u := by
  obtain ⟨s, -, heff⟩ := Backend.exec_ok h
  cases heff
  exact ⟨rfl, rfl⟩

variable {env : Env} {x y : Config (service env)} {l : Label (service env)}

/-- A move leaves the requests alone. -/
theorem drift_requests {m : Move} (h : drift m u = some w) : w.linkRequests = u.linkRequests := by
  cases m with
  | signUp id email =>
      simp only [drift] at h
      obtain ⟨authUsers, -, h⟩ := Option.bind_eq_some_iff.mp h
      obtain ⟨users, -, h⟩ := Option.bind_eq_some_iff.mp h
      rw [← Option.some.inj h]
  | _ => rw [← Option.some.inj h]

theorem drift_clock {m : Move} (h : drift m u = some w) : u.clock ≤ w.clock := by
  cases m with
  | tick elapsed =>
      rw [← Option.some.inj h]
      exact Int.le_add_of_nonneg_right (Int.natCast_nonneg elapsed)
  | signUp id email =>
      simp only [drift] at h
      obtain ⟨authUsers, -, h⟩ := Option.bind_eq_some_iff.mp h
      obtain ⟨users, -, h⟩ := Option.bind_eq_some_iff.mp h
      obtain rfl := Option.some.inj h
      exact Int.le_refl _
  | others =>
      obtain rfl := Option.some.inj h
      exact Int.le_refl _

theorem clock_step (hs : x.Step y l) : World.clock x.world ≤ World.clock y.world := by
  rcases hs.world_cases with hw | ⟨i, o, p, op, k, a, -, -, -, he, -⟩ | ⟨m, -, hm⟩
  · exact Int.le_of_eq (congrArg World.clock hw.symm)
  · replace he : backend.exec op o x.world = some (a, y.world) := he
    exact Int.le_of_eq (clock_exec he).symm
  · exact drift_clock hm

/-- **The clock does not run backwards.** -/
theorem now_le (hx : Reachable env x) :
    ∀ p ∈ x.procs, ∀ t, ⟨.now, .ok t⟩ ∈ p.hist → t ≤ World.clock x.world := by
  induction hx with
  | refl => exact fun p hp => absurd hp List.not_mem_nil
  | tail _ hl ih =>
      have hs := Config.next_step hl.choose_spec
      intro q hq t ht
      obtain ⟨j, hj⟩ := List.getElem?_of_mem hq
      rcases hs.hist_cases hj with ⟨p, hp, -, hhist⟩ | hnil |
        ⟨p, op, k, o, a, hp, -, -, he, -, hhist⟩
      · exact Int.le_trans (ih p (List.mem_of_getElem? hp) t (hhist ▸ ht)) (clock_step hs)
      · rw [hnil] at ht
        cases ht
      · rw [hhist] at ht
        rcases List.mem_cons.mp ht with heq | ht
        · cases heq
          replace he : backend.exec .now o _ = some (.ok t, _) := he
          exact Int.le_trans (Int.le_of_eq (now_ok he).1) (clock_step hs)
        · exact Int.le_trans (ih p (List.mem_of_getElem? hp) t ht) (clock_step hs)

end Meduman.Linking
