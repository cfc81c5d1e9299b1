import Meduman.Effect.Prog

/-!
# Programs of one service in another

A service that calls another has its operations among its own, and its errors among its own.

* `Embedding` : the operations and the errors of one signature in another
* `Prog.embed` : its programs there
* `along_embed`, `gives_embed`, `uses_embed` : what they keep there is what they kept
-/

set_option autoImplicit false

namespace Effect

/-- The operations and the errors of one signature in another; `back` reads an answer as the inner
program sees it. -/
structure Embedding {Op Op' : Type} (Ans : Op → Type) (Err : Type) (Ans' : Op' → Type)
    (Err' : Type) where
  op : Op → Op'
  err : Err → Err'
  back : ∀ op₀, Except Err' (Ans' (op op₀)) → Except Err (Ans op₀)

variable {Op Op' : Type} {Ans : Op → Type} {Err : Type} {Ans' : Op' → Type} {Err' : Type}
  {α : Type} (ι : Embedding Ans Err Ans' Err')

/-- A program of the inner signature. -/
def Prog.embed : Prog Ans Err α → Prog Ans' Err' α
  | .done (.ok a) => .done (.ok a)
  | .done (.error e) => .done (.error (ι.err e))
  | .call op k => .call (ι.op op) fun a => (k (ι.back op a)).embed

variable {ι}

theorem embed_bind {β : Type} (p : Prog Ans Err α) (f : α → Prog Ans Err β) :
    (p >>= f).embed ι = p.embed ι >>= fun a => (f a).embed ι := by
  induction p with
  | done r => cases r <;> rfl
  | call op k ih => exact congrArg (Prog.call (ι.op op)) (funext fun a => ih _)

/-- The operations of an embedded program are embedded operations. -/
theorem uses_embed {A : Op → Prop} {B : Op' → Prop} {p : Prog Ans Err α} (hp : p.Uses A)
    (hAB : ∀ op, A op → B (ι.op op)) : (p.embed ι).Uses B := by
  induction p with
  | done r => cases r <;> trivial
  | call op k ih => exact ⟨hAB op hp.1, fun a => ih _ (hp.2 _)⟩

/-- **What an embedded program promises** is what it promised, on what it sees of the history. -/
theorem along_embed {P : Event Ans Err → Prop} {P' : Event Ans' Err' → Prop}
    {J : History Ans Err → Op → Prop} {J' : History Ans' Err' → Op' → Prop}
    {Q : Except Err α → History Ans Err → Prop} {Q' : Except Err' α → History Ans' Err' → Prop}
    (inner : History Ans' Err' → History Ans Err)
    (hcons : ∀ op a h, inner (⟨ι.op op, a⟩ :: h) = ⟨op, ι.back op a⟩ :: inner h)
    (hP : ∀ op a, P' ⟨ι.op op, a⟩ → P ⟨op, ι.back op a⟩)
    (hJ : ∀ h op, J (inner h) op → J' h (ι.op op))
    (hok : ∀ a h, Q (.ok a) (inner h) → Q' (.ok a) h)
    (herr : ∀ e h, Q (.error e) (inner h) → Q' (.error (ι.err e)) h)
    {p : Prog Ans Err α} {h : History Ans' Err'} (hp : p.Along P J Q (inner h)) :
    (p.embed ι).Along P' J' Q' h := by
  induction p generalizing h with
  | done r =>
      cases r with
      | ok a => exact hok a h hp
      | error e => exact herr e h hp
  | call op k ih =>
      refine ⟨hJ h op hp.1, fun a ha => ih _ ?_⟩
      rw [hcons]
      exact hp.2 _ (hP op a ha)

/-- **What an embedded program gives** is what it gave, on what it sees of the history; what it performs
needs to be justified only where the history extends that at the start. -/
theorem gives_embed {P : Event Ans Err → Prop} {P' : Event Ans' Err' → Prop}
    {J : History Ans Err → Op → Prop} {J' : History Ans' Err' → Op' → Prop}
    {R : α → History Ans Err → Prop} (inner : History Ans' Err' → History Ans Err)
    (hcons : ∀ op a h, inner (⟨ι.op op, a⟩ :: h) = ⟨op, ι.back op a⟩ :: inner h)
    (hP : ∀ op a, P' ⟨ι.op op, a⟩ → P ⟨op, ι.back op a⟩) {h : History Ans' Err'}
    (hJ : ∀ h' op, h <:+ h' → J (inner h') op → J' h' (ι.op op)) {p : Prog Ans Err α}
    (hp : p.Gives P J R (inner h)) : (p.embed ι).Gives P' J' (fun a h' => R a (inner h')) h := by
  have halong : (p.embed ι).Along P' (fun h' op => h <:+ h' → J' h' op)
      (fun r h' => ∀ a, r = .ok a → R a (inner h')) h :=
    along_embed inner hcons hP (fun h' op hop hs => hJ h' op hs hop)
      (fun a h' hr b hb => by cases hb; exact hr a rfl) (fun _ _ _ _ ha => by cases ha) hp
  exact halong.onward

end Effect
