import Meduman.Model.Linking

/-!
# What each call may do

* `Call.Does` : the operations of a call, whatever it is answered
* **`code_does`** : a call performs no others
* `consume_consumes` : a code that is consumed mints nobody
-/

set_option autoImplicit false

namespace Meduman.Linking

open Effect Chat

/-- The operations a call may perform. -/
def Call.Does (c : Call) : Op → Prop
  | .createUser _ | .identityCreate _ => ∃ p u d m, c = .message p u d m
  | .linkRequestCancel targetUserId _ => c = .mint targetUserId
  | .linkRequestCreate d => c = .mint d.targetUserId
  | .linkRequestUpdate _ .countAttempt | .linkRequestUpdate _ (.consumeAs ..) =>
      ∃ p u d code, c = .message p u d (some code)
  | .linkRequestUpdate id (.reject ..) => ∃ input, c = .resolve input ∧ input.id = id
  | .linkRequestUpdate id .promote => ∃ input, c = .resolve input ∧ input.id = id
  | .linkRequestUpdate id (.complete ..) => ∃ input, c = .resolve input ∧ input.id = id
  | .mergeAccounts _ _ opts => (∃ p u d code, c = .message p u d (some code)) ∧ opts = {} ∨
      ∃ input, c = .resolve input
  | _ => True

/-- The operation mints a user, or gives one an identity. -/
def Op.mints : Op → Bool
  | createUser _ | identityCreate _ => true
  | _ => false

/-- What the consumption of a code may perform: what its message may, but mint. -/
def Call.Consumes (c : Call) (op : Op) : Prop := c.Does op ∧ op.mints = false

variable {env : Env}

theorem resolveOrCreate_does (p : ChatPlatform) (u : String) (d : Option String)
    (m : Option String) :
    (resolveOrCreate env p u d).Uses (Call.message p u d m).Does := by
  unfold resolveOrCreate
  refine uses_bind (uses_perform trivial) fun existing => ?_
  split
  · exact uses_done _
  · refine uses_bind (uses_perform ⟨p, u, d, m, rfl⟩) fun authUserId => ?_
    refine uses_tryCatch ?_ fun e => ?_
    · refine uses_bind (uses_perform ⟨p, u, d, m, rfl⟩) fun identity => ?_
      exact uses_bind (uses_perform trivial) fun _ => uses_done _
    · split
      · refine uses_bind (uses_perform trivial) fun winner => ?_
        split
        · exact uses_done _
        · exact uses_throw _
      · exact uses_throw _

theorem mint_does (targetUserId : Uuid) :
    (mint env targetUserId).Uses (Call.mint targetUserId).Does := by
  unfold mint
  refine uses_bind (uses_perform trivial) fun resolvedAt => ?_
  refine uses_bind (uses_perform rfl) fun _ => ?_
  refine uses_bind (uses_perform trivial) fun code => ?_
  refine uses_bind (uses_perform trivial) fun now => ?_
  refine uses_bind (uses_perform rfl) fun request => ?_
  exact uses_bind (uses_perform trivial) fun _ => uses_done _

section Consume

variable {p : ChatPlatform} {u : String} {d : Option String} {code : String}

theorem consumeAs_consumes (identity : ChatIdentity) (id : Uuid) (status : ChatLinkRequestStatus)
    (reason : Option MergeCollisionKind) :
    (consumeAs identity id status reason).Uses (Call.message p u d (some code)).Consumes :=
  uses_bind (uses_perform ⟨trivial, rfl⟩) fun _ => uses_perform ⟨⟨p, u, d, code, rfl⟩, rfl⟩

theorem rejectCode_consumes (identity : ChatIdentity) (request : ChatLinkRequest) (reason : String) :
    (rejectCode identity request reason).Uses (Call.message p u d (some code)).Consumes := by
  refine uses_bind (uses_perform ⟨⟨p, u, d, code, rfl⟩, rfl⟩) fun _ => ?_
  exact uses_bind (uses_perform ⟨trivial, rfl⟩) fun _ => uses_done _

theorem park_consumes (identity : ChatIdentity) (id : Uuid) (reason : MergeCollisionKind) :
    (park identity id reason).Uses (Call.message p u d (some code)).Consumes :=
  uses_bind (consumeAs_consumes _ _ _ _) fun _ => uses_done _

theorem checkCollision_consumes (sourceUserId targetUserId : Uuid) :
    (checkCollision sourceUserId targetUserId).Uses (Call.message p u d (some code)).Consumes := by
  unfold checkCollision
  refine uses_bind (uses_perform ⟨trivial, rfl⟩) fun _ => ?_
  refine uses_bind (uses_perform ⟨trivial, rfl⟩) fun _ => ?_
  split
  · exact uses_done _
  · refine uses_bind (uses_perform ⟨trivial, rfl⟩) fun _ => ?_
    split
    · exact uses_done _
    · exact uses_bind (uses_perform ⟨trivial, rfl⟩) fun _ => uses_done _

theorem mergeAndConsume_consumes (identity : ChatIdentity) (request : ChatLinkRequest) :
    (mergeAndConsume identity request).Uses (Call.message p u d (some code)).Consumes := by
  refine uses_tryCatch ?_ fun e => ?_
  · refine uses_bind (uses_perform ⟨.inl ⟨⟨p, u, d, code, rfl⟩, rfl⟩, rfl⟩) fun _ => ?_
    exact uses_bind (consumeAs_consumes _ _ _ _) fun _ => uses_done _
  · split
    · exact uses_done _
    · exact park_consumes _ _ _
    · exact uses_throw _

theorem consume_consumes (identity : ChatIdentity) :
    (consume env identity code).Uses (Call.message p u d (some code)).Consumes := by
  unfold consume
  refine uses_bind (uses_perform ⟨trivial, rfl⟩) fun found => ?_
  split
  · exact uses_done _
  · split
    · exact rejectCode_consumes _ _ _
    · refine uses_bind (uses_perform ⟨trivial, rfl⟩) fun now => ?_
      split
      · exact rejectCode_consumes _ _ _
      · split
        · exact rejectCode_consumes _ _ _
        · split
          · exact uses_bind (consumeAs_consumes _ _ _ _) fun _ => uses_done _
          · refine uses_bind (uses_perform ⟨trivial, rfl⟩) fun inFlight => ?_
            split
            · exact uses_done _
            · refine uses_bind (checkCollision_consumes _ _) fun collision => ?_
              split
              · exact park_consumes _ _ _
              · exact mergeAndConsume_consumes _ _

end Consume

theorem resolve_does (input : ResolveInput) : (resolve input).Uses (Call.resolve input).Does := by
  unfold resolve
  refine uses_bind (uses_perform trivial) fun found => ?_
  split
  · exact uses_throw _
  · split
    · exact uses_throw _
    · split
      · split
        · refine uses_bind (uses_perform trivial) fun now => ?_
          refine uses_bind (uses_perform ⟨input, rfl, rfl⟩) fun _ => ?_
          exact uses_bind (uses_perform trivial) fun _ => uses_done _
        · split
          · exact uses_throw _
          · split
            · exact uses_throw _
            · refine uses_bind (uses_perform ⟨input, rfl, rfl⟩) fun _ => ?_
              refine uses_bind (uses_perform trivial) fun identity => ?_
              refine uses_bind (uses_perform (.inr ⟨input, rfl⟩)) fun report => ?_
              refine uses_bind (uses_perform trivial) fun now => ?_
              refine uses_bind (uses_perform ⟨input, rfl, rfl⟩) fun _ => ?_
              exact uses_bind (uses_perform trivial) fun _ => uses_done _
      · exact uses_throw _

/-- **A call performs only what is its own.** -/
theorem code_does (env : Env) (c : Call) : (code env c).Uses c.Does := by
  cases c with
  | message p u d connect =>
      refine uses_bind (resolveOrCreate_does p u d connect) fun identity => ?_
      cases connect with
      | none => exact uses_done _
      | some code =>
          exact uses_bind ((consume_consumes identity).mono fun _ hop => hop.1) fun _ => uses_done _
  | mint targetUserId => exact uses_bind (mint_does targetUserId) fun _ => uses_done _
  | resolve input => exact uses_bind (resolve_does input) fun _ => uses_done _

/-- What a call in progress is about to do is its own. -/
theorem does_of_reaches {x : Config (service env)} (hx : Reachable env x) {p : Process (service env)}
    (hp : p ∈ x.procs) {op : Op} {k : Except Err op.Ans → Program Reply}
    (hk : p.prog = some (.call op k)) : p.call.Does op :=
  (Reaches.uses (A := Call.Does) (code_does env) hx p hp _ hk).1

namespace Demo

def chatBorn : Uuid := ⟨"00000000-0000-4000-8001-000000000001", by decide⟩

def webBorn : Uuid := ⟨"00000000-0000-4000-8001-000000000002", by decide⟩

/-- A hash that hides nothing. -/
def settings : Env where
  hashLinkCode code := code
  toUpperCase code := code
  chatLinkCodeLength := 8
  chatLinkCodeTtlSeconds := 900
  chatLinkMaxAttempts := 5
  chatIdentityEmailDomain := "chat.example"

/-- Process `i` goes on. -/
def goes (i n : Nat) : List (Label (service settings)) :=
  List.replicate n (.perform i (.served ⟨chatBorn, "CODE"⟩))

/-- Someone signs up and mints a code, which a new chat account types. -/
def connecting : List (Label (service settings)) :=
  .drift (.signUp webBorn "web") :: .arrive (.mint webBorn) :: goes 0 6 ++
  .arrive (.message .telegram "42" none (some "CODE")) :: goes 1 11

end Demo

end Meduman.Linking
