import Interleave.Search.Strategies
import Mathlib.Order.Defs.Unbundled
import Mathlib.Tactic.Common

/-!
# Results of computations

Frames, steps, machines and searches are all worked on by computations that carry a state and may
fault. The lemmas here say what it means for a computation to give a result, one construct at a
time, so that a computation that succeeded can be taken apart into the pieces that it ran.

`Keeps` says how the states before and after a computation are related whenever it succeeds; it is
put together from the parts of the computation. `Agree` relates the results of two computations:
both give the same value or the same fault, and the states they leave are related.
-/

namespace Interleave

namespace Effect

variable {ε σ α β : Type}

/-- A sequence gives a result when both of its parts do. -/
theorem bind_eq_ok {x : EStateM ε σ α} {f : α → EStateM ε σ β} {s s' : σ} {b : β} :
    (x >>= f) s = .ok b s' ↔ ∃ a t, x s = .ok a t ∧ f a t = .ok b s' := by
  simp only [bind, EStateM.bind]
  cases h : x s with
  | ok a t =>
    constructor
    · intro hf
      exact ⟨a, t, rfl, hf⟩
    · rintro ⟨a', t', ha, hf⟩
      cases ha
      exact hf
  | error e t => simp

/-- A sequence faults when one of its parts does. -/
theorem bind_eq_error {x : EStateM ε σ α} {f : α → EStateM ε σ β} {s s' : σ} {e : ε} :
    (x >>= f) s = .error e s' ↔
      x s = .error e s' ∨ ∃ a t, x s = .ok a t ∧ f a t = .error e s' := by
  simp only [bind, EStateM.bind]
  cases h : x s with
  | ok a t =>
    constructor
    · intro hf
      exact .inr ⟨a, t, rfl, hf⟩
    · rintro (hx | ⟨a', t', ha, hf⟩)
      · cases hx
      · cases ha
        exact hf
  | error e' t => simp

/-- A computation that begins with one whose result is known. -/
theorem bind_of_ok {x : EStateM ε σ α} {f : α → EStateM ε σ β} {s t : σ} {a : α}
    (h : x s = .ok a t) : (x >>= f) s = f a t := by
  simp only [bind, EStateM.bind, h]

/-- A computation that begins with one that faults. -/
theorem bind_of_error {x : EStateM ε σ α} {f : α → EStateM ε σ β} {s t : σ} {e : ε}
    (h : x s = .error e t) : (x >>= f) s = .error e t := by
  simp only [bind, EStateM.bind, h]

/-- Sequences that go on in the same way after the same beginning. -/
theorem bind_congr {x : EStateM ε σ α} {f g : α → EStateM ε σ β} {s : σ}
    (h : ∀ a t, f a t = g a t) : (x >>= f) s = (x >>= g) s :=
  congrArg (fun f => (x >>= f) s) (funext fun a => funext fun t => h a t)

/-- A computation that begins by looking at the state. -/
theorem get_bind {f : σ → EStateM ε σ β} {s : σ} : (get >>= f) s = f s s := rfl

/-- A computation that begins by changing the state. -/
theorem modify_bind {g : σ → σ} {f : PUnit → EStateM ε σ β} {s : σ} :
    ((modify g : EStateM ε σ PUnit) >>= f) s = f ⟨⟩ (g s) := rfl

/-- A computation that begins by replacing the state. -/
theorem set_bind {f : PUnit → EStateM ε σ β} {s t : σ} :
    ((set t : EStateM ε σ PUnit) >>= f) s = f ⟨⟩ t := rfl

@[simp] theorem pure_eq_ok {a b : α} {s s' : σ} :
    (pure a : EStateM ε σ α) s = .ok b s' ↔ b = a ∧ s' = s := by
  simp only [pure, EStateM.pure, EStateM.Result.ok.injEq]
  exact and_congr eq_comm eq_comm

/-- The same for computations without a state. -/
theorem except_bind_eq_ok {x : Except ε α} {f : α → Except ε β} {b : β} :
    (x >>= f) = .ok b ↔ ∃ a, x = .ok a ∧ f a = .ok b := by
  cases x with
  | ok a => simp [bind, Except.bind]
  | error e => simp [bind, Except.bind]

/-- A computation without a state, when it is forgotten why it faults. -/
theorem except_toOption_eq_some {x : Except ε α} {a : α} : x.toOption = some a ↔ x = .ok a := by
  cases x <;> simp [Except.toOption]

@[simp] theorem throw_eq_ok {e : ε} {b : α} {s s' : σ} :
    (throw e : EStateM ε σ α) s = .ok b s' ↔ False := by
  show (EStateM.Result.error e s : EStateM.Result ε σ α) = .ok b s' ↔ False
  simp

@[simp] theorem get_eq_ok {s s' t : σ} :
    (get : EStateM ε σ σ) s = .ok t s' ↔ t = s ∧ s' = s := by
  show (EStateM.Result.ok s s : EStateM.Result ε σ σ) = .ok t s' ↔ _
  rw [EStateM.Result.ok.injEq]
  exact and_congr eq_comm eq_comm

@[simp] theorem set_eq_ok {s s' t : σ} {u : PUnit} :
    (set t : EStateM ε σ PUnit) s = .ok u s' ↔ s' = t := by
  show (EStateM.Result.ok ⟨⟩ t : EStateM.Result ε σ PUnit) = .ok u s' ↔ _
  rw [EStateM.Result.ok.injEq]
  exact ⟨fun h => h.2.symm, fun h => ⟨rfl, h.symm⟩⟩

@[simp] theorem modify_eq_ok {f : σ → σ} {s s' : σ} {u : PUnit} :
    (modify f : EStateM ε σ PUnit) s = .ok u s' ↔ s' = f s := by
  show (EStateM.Result.ok ⟨⟩ (f s) : EStateM.Result ε σ PUnit) = .ok u s' ↔ _
  rw [EStateM.Result.ok.injEq]
  exact ⟨fun h => h.2.symm, fun h => ⟨rfl, h.symm⟩⟩

@[simp] theorem modifyGet_eq_ok {f : σ → α × σ} {s s' : σ} {a : α} :
    (modifyGet f : EStateM ε σ α) s = .ok a s' ↔ a = (f s).1 ∧ s' = (f s).2 := by
  show (EStateM.Result.ok (f s).1 (f s).2 : EStateM.Result ε σ α) = .ok a s' ↔ _
  rw [EStateM.Result.ok.injEq]
  exact and_congr eq_comm eq_comm

/-- Does the computation give a result that passes a test? -/
def gives (x : EStateM ε σ α) (s : σ) (test : α → σ → Bool) : Bool :=
  match x s with
  | .ok a s' => test a s'
  | .error .. => false

theorem gives_iff {x : EStateM ε σ α} {s : σ} {test : α → σ → Bool} :
    gives x s test = true ↔ ∃ a s', x s = .ok a s' ∧ test a s' = true := by
  unfold gives
  cases x s with
  | ok a s' => simp
  | error e s' => simp

/-- Does the computation fault in a way that passes a test? -/
def fails (x : EStateM ε σ α) (s : σ) (test : ε → σ → Bool) : Bool :=
  match x s with
  | .ok .. => false
  | .error e s' => test e s'

theorem fails_iff {x : EStateM ε σ α} {s : σ} {test : ε → σ → Bool} :
    fails x s test = true ↔ ∃ e s', x s = .error e s' ∧ test e s' = true := by
  unfold fails
  cases x s with
  | ok a s' => simp
  | error e s' => simp

/-- Whenever the computation succeeds, the states before and after it are related by `R`. -/
def Keeps (R : σ → σ → Prop) (x : EStateM ε σ α) : Prop := ∀ ⦃s a s'⦄, x s = .ok a s' → R s s'

namespace Keeps

variable {R : σ → σ → Prop}

theorem throw (e : ε) : Keeps R (throw e : EStateM ε σ α) := fun _ _ _ h => by simp at h

section Preorder

variable [IsPreorder σ R]

theorem pure (a : α) : Keeps R (pure a : EStateM ε σ α) := by
  intro s b s' h
  obtain ⟨-, rfl⟩ := pure_eq_ok.mp h
  exact refl s'

theorem get : Keeps R (get : EStateM ε σ σ) := by
  intro s b s' h
  obtain ⟨-, rfl⟩ := get_eq_ok.mp h
  exact refl s'

/-- What both parts of a sequence keep, the sequence keeps. -/
theorem bind {x : EStateM ε σ α} {f : α → EStateM ε σ β} (hx : Keeps R x)
    (hf : ∀ a, Keeps R (f a)) : Keeps R (x >>= f) := by
  intro s b s' h
  obtain ⟨a, t, ha, hb⟩ := bind_eq_ok.mp h
  exact IsTrans.trans _ _ _ (hx ha) (hf a hb)

end Preorder

end Keeps

/-- Whenever the computation faults, `Q` holds of the fault. -/
def Faults (Q : ε → Prop) (x : EStateM ε σ α) : Prop := ∀ ⦃s e s'⦄, x s = .error e s' → Q e

/-- A computation meets its contract: whenever it succeeds, the states before and after it are
related by `R` and `P` holds of the value; whenever it faults, `Q` holds of the fault. -/
structure Meets (R : σ → σ → Prop) (P : α → Prop) (Q : ε → Prop) (x : EStateM ε σ α) : Prop where
  keeps : Keeps R x
  gives : ∀ ⦃s a s'⦄, x s = .ok a s' → P a
  faults : Faults Q x

namespace Faults

variable {Q : ε → Prop}

theorem pure (a : α) : Faults Q (pure a : EStateM ε σ α) := fun _ _ _ h => nomatch h

theorem get : Faults Q (get : EStateM ε σ σ) := fun _ _ _ h => nomatch h

theorem set (s : σ) : Faults Q (set s : EStateM ε σ PUnit) := fun _ _ _ h => nomatch h

theorem modify (g : σ → σ) : Faults Q (modify g : EStateM ε σ PUnit) := fun _ _ _ h => nomatch h

theorem throw {e : ε} (he : Q e) : Faults Q (throw e : EStateM ε σ α) := by
  intro s e' s' h
  cases h
  exact he

theorem bind {x : EStateM ε σ α} {f : α → EStateM ε σ β} (hx : Faults Q x)
    (hf : ∀ a, Faults Q (f a)) : Faults Q (x >>= f) := by
  intro s e s' h
  simp only [Bind.bind, EStateM.bind] at h
  cases hs : x s with
  | ok a t =>
    rw [hs] at h
    exact hf a h
  | error e' t =>
    rw [hs] at h
    cases h
    exact hx hs

end Faults

namespace Meets

variable {R : σ → σ → Prop} {P P' : α → Prop} {Q : ε → Prop}

theorem throw {e : ε} (he : Q e) : Meets R P Q (throw e : EStateM ε σ α) where
  keeps := .throw e
  gives _ _ _ h := by simp at h
  faults := .throw he

/-- A weaker property of the value. -/
theorem mono {x : EStateM ε σ α} (h : Meets R P Q x) (hP : ∀ a, P a → P' a) : Meets R P' Q x where
  keeps := h.keeps
  gives _ _ _ hx := hP _ (h.gives hx)
  faults := h.faults

section Preorder

variable [IsPreorder σ R]

theorem pure {a : α} (ha : P a) : Meets R P Q (pure a : EStateM ε σ α) where
  keeps := .pure a
  gives s b s' h := by
    obtain ⟨rfl, -⟩ := pure_eq_ok.mp h
    exact ha
  faults := .pure a

/-- What the second part of a sequence guarantees of the value, the sequence guarantees. -/
theorem bind {P' : β → Prop} {x : EStateM ε σ α} {f : α → EStateM ε σ β} (hx : Meets R P Q x)
    (hf : ∀ a, P a → Meets R P' Q (f a)) : Meets R P' Q (x >>= f) where
  keeps s b s' h := by
    obtain ⟨a, t, ha, hb⟩ := bind_eq_ok.mp h
    exact IsTrans.trans _ _ _ (hx.keeps ha) ((hf a (hx.gives ha)).keeps hb)
  gives s b s' h := by
    obtain ⟨a, t, ha, hb⟩ := bind_eq_ok.mp h
    exact (hf a (hx.gives ha)).gives hb
  faults s e s' h := by
    simp only [Bind.bind, EStateM.bind] at h
    cases hs : x s with
    | ok a t =>
      rw [hs] at h
      exact (hf a (hx.gives hs)).faults h
    | error e' t =>
      rw [hs] at h
      cases h
      exact hx.faults hs

end Preorder

end Meets

/-- From wherever `I` holds, the computation comes to where `J` holds of the value and the state, or
it faults in a way that `Q` holds of. -/
def Brings (I : σ → Prop) (J : α → σ → Prop) (Q : ε → Prop) (x : EStateM ε σ α) : Prop :=
  (∀ ⦃s a s'⦄, I s → x s = .ok a s' → J a s') ∧ ∀ ⦃s e s'⦄, I s → x s = .error e s' → Q e

namespace Brings

variable {I : σ → Prop} {J : α → σ → Prop} {Q : ε → Prop}

theorem pure {a : α} (h : ∀ s, I s → J a s) : Brings I J Q (pure a : EStateM ε σ α) := by
  refine ⟨fun s b s' hs hb => ?_, fun s e s' _ he => nomatch he⟩
  obtain ⟨rfl, rfl⟩ := pure_eq_ok.mp hb
  exact h _ hs

theorem mono {I' : σ → Prop} {J' : α → σ → Prop} {x : EStateM ε σ α} (h : Brings I' J' Q x)
    (hI : ∀ s, I s → I' s) (hJ : ∀ a s, J' a s → J a s) : Brings I J Q x :=
  ⟨fun _ _ _ hs ha => hJ _ _ (h.1 (hI _ hs) ha), fun _ _ _ hs he => h.2 (hI _ hs) he⟩

theorem bind {J' : β → σ → Prop} {x : EStateM ε σ α} {f : α → EStateM ε σ β} (hx : Brings I J Q x)
    (hf : ∀ a, Brings (J a) J' Q (f a)) : Brings I J' Q (x >>= f) := by
  refine ⟨fun s b s' hs h => ?_, fun s e s' hs h => ?_⟩
  · obtain ⟨a, t, ha, hb⟩ := bind_eq_ok.mp h
    exact (hf a).1 (hx.1 hs ha) hb
  · cases ha : x s with
    | ok a t =>
      rw [bind_of_ok ha] at h
      exact (hf a).2 (hx.1 hs ha) h
    | error e' t =>
      rw [bind_of_error ha] at h
      cases h
      exact hx.2 hs ha

end Brings

/-- From wherever `I` holds, the computation comes to where `I` holds again, or it faults in a way
that `Q` holds of. -/
abbrev Guards (I : σ → Prop) (Q : ε → Prop) (x : EStateM ε σ α) : Prop :=
  Brings I (fun _ => I) Q x

namespace Guards

variable {I : σ → Prop} {Q : ε → Prop}

/-- A computation that keeps what holds and faults as it may. -/
theorem of_faults {x : EStateM ε σ α} (hkeeps : ∀ ⦃s a s'⦄, I s → x s = .ok a s' → I s')
    (hfaults : Faults Q x) : Guards I Q x :=
  ⟨hkeeps, fun _ _ _ _ h => hfaults h⟩

theorem pure (a : α) : Guards I Q (pure a : EStateM ε σ α) :=
  .of_faults (fun _ _ _ hs h => (pure_eq_ok.mp h).2 ▸ hs) (.pure a)

theorem throw {e : ε} (he : Q e) : Guards I Q (throw e : EStateM ε σ α) :=
  .of_faults (fun _ _ _ _ h => by simp at h) (.throw he)

theorem bind {x : EStateM ε σ α} {f : α → EStateM ε σ β} (hx : Guards I Q x)
    (hf : ∀ ⦃s a s'⦄, I s → x s = .ok a s' → Guards I Q (f a)) : Guards I Q (x >>= f) := by
  refine ⟨fun s b s' hs h => ?_, fun s e s' hs h => ?_⟩
  · obtain ⟨a, t, ha, hb⟩ := bind_eq_ok.mp h
    exact (hf hs ha).1 (hx.1 hs ha) hb
  · cases ha : x s with
    | ok a t =>
      rw [bind_of_ok ha] at h
      exact (hf hs ha).2 (hx.1 hs ha) h
    | error e' t =>
      rw [bind_of_error ha] at h
      cases h
      exact hx.2 hs ha

end Guards

/-- Two computations have the same outcome: the same value or the same fault, in states that are
related by `R`. -/
inductive Agree (R : σ → σ → Prop) : EStateM.Result ε σ α → EStateM.Result ε σ α → Prop where
  | ok {a : α} {s t : σ} (h : R s t) : Agree R (.ok a s) (.ok a t)
  | error {e : ε} {s t : σ} (h : R s t) : Agree R (.error e s) (.error e t)

namespace Agree

variable {R : σ → σ → Prop}

/-- Sequences have the same outcome when their first parts do, and their second parts do from
related states. -/
theorem bind {x y : EStateM ε σ α} {f g : α → EStateM ε σ β} {s t : σ} (hx : Agree R (x s) (y t))
    (hf : ∀ a s' t', R s' t' → Agree R (f a s') (g a t')) :
    Agree R ((x >>= f) s) ((y >>= g) t) := by
  simp only [Bind.bind, EStateM.bind]
  generalize x s = rx at hx
  generalize y t = ry at hx
  cases hx with
  | ok h => exact hf _ _ _ h
  | error h => exact .error h

/-- Outcomes that are related are related by every weaker relation. -/
theorem mono {R' : σ → σ → Prop} {x y : EStateM.Result ε σ α} (h : Agree R x y)
    (hR : ∀ s t, R s t → R' s t) : Agree R' x y := by
  cases h with
  | ok h => exact .ok (hR _ _ h)
  | error h => exact .error (hR _ _ h)

/-- Outcomes that agree with a third one agree with each other. -/
theorem comp {R' R'' : σ → σ → Prop} {x y z : EStateM.Result ε σ α} (h : Agree R x z)
    (h' : Agree R' y z) (hR : ∀ s t u, R s u → R' t u → R'' s t) : Agree R'' x y := by
  cases h with
  | ok h =>
    cases h' with
    | ok h' => exact .ok (hR _ _ _ h h')
  | error h =>
    cases h' with
    | error h' => exact .error (hR _ _ _ h h')

/-- A result on one side is also the result of the other. -/
theorem of_ok {x y : EStateM.Result ε σ α} {a : α} {s : σ} (h : Agree R x y) (hx : x = .ok a s) :
    ∃ t, y = .ok a t ∧ R s t := by
  subst hx
  cases h with
  | ok h => exact ⟨_, rfl, h⟩

/-- A fault on one side is also the fault of the other. -/
theorem of_error {x y : EStateM.Result ε σ α} {e : ε} {s : σ} (h : Agree R x y)
    (hx : x = .error e s) : ∃ t, y = .error e t ∧ R s t := by
  subst hx
  cases h with
  | error h => exact ⟨_, rfl, h⟩

end Agree

/-- What holds of the outcome of a computation: `P` of the value and the state that it leaves, or
`Q` of the state that is left by a fault. -/
def Ends (P : α → σ → Prop) (Q : σ → Prop) : EStateM.Result ε σ α → Prop
  | .ok a s => P a s
  | .error _ s => Q s

/-- What holds of an outcome may be weakened. -/
theorem Ends.mono {P P' : α → σ → Prop} {Q Q' : σ → Prop} {r : EStateM.Result ε σ α} (h : Ends P Q r)
    (hP : ∀ a s, P a s → P' a s) (hQ : ∀ s, Q s → Q' s) : Ends P' Q' r := by
  cases r with
  | ok a s => exact hP a s h
  | error e s => exact hQ s h

/-- The state that a computation leaves, by a result or by a fault. -/
def leaves : EStateM.Result ε σ α → σ
  | .ok _ s | .error _ s => s

theorem Ends.leaves {P : σ → Prop} {r : EStateM.Result ε σ α} (h : Ends (fun _ => P) P r) :
    P (leaves r) := by
  cases r with
  | ok a s => exact h
  | error e s => exact h

theorem Agree.leaves {R : σ → σ → Prop} {x y : EStateM.Result ε σ α} (h : Agree R x y) :
    R (leaves x) (leaves y) := by
  cases h with
  | ok h => exact h
  | error h => exact h

/-- A sequence ends as its second part does, unless its first part faults. -/
theorem Ends.bind {P : α → σ → Prop} {P' : β → σ → Prop} {Q : σ → Prop} {x : EStateM ε σ α}
    {f : α → EStateM ε σ β} {s : σ} (hx : Ends P Q (x s)) (hf : ∀ a t, P a t → Ends P' Q (f a t)) :
    Ends P' Q ((x >>= f) s) := by
  cases h : x s with
  | ok a t =>
    rw [h] at hx
    rw [bind_of_ok h]
    exact hf a t hx
  | error e t =>
    rw [h] at hx
    rw [bind_of_error h]
    exact hx

/-- From wherever `I` holds, the computation comes to where `J` holds of the value and the state, or
a fault leaves behind what `Q` holds of. -/
def Lands (I : σ → Prop) (J : α → σ → Prop) (Q : σ → Prop) (x : EStateM ε σ α) : Prop :=
  ∀ ⦃s⦄, I s → Ends J Q (x s)

namespace Lands

variable {I I' : σ → Prop} {J : α → σ → Prop} {Q : σ → Prop}

theorem pure {a : α} (h : ∀ s, I s → J a s) : Lands I J Q (pure a : EStateM ε σ α) :=
  fun s hs => h s hs

theorem mono {J' : α → σ → Prop} {Q' : σ → Prop} {x : EStateM ε σ α} (h : Lands I' J' Q' x)
    (hI : ∀ s, I s → I' s) (hJ : ∀ a s, J' a s → J a s) (hQ : ∀ s, Q' s → Q s) : Lands I J Q x :=
  fun s hs => (h (hI s hs)).mono hJ hQ

theorem bind {J' : β → σ → Prop} {x : EStateM ε σ α} {f : α → EStateM ε σ β} (hx : Lands I J Q x)
    (hf : ∀ ⦃s a s'⦄, x s = .ok a s' → Lands (J a) J' Q (f a)) : Lands I J' Q (x >>= f) := by
  intro s hs
  have hends := hx hs
  cases h : x s with
  | ok a t =>
    rw [h] at hends
    rw [bind_of_ok h]
    exact hf h hends
  | error e t =>
    rw [h] at hends
    rw [bind_of_error h]
    exact hends

end Lands

/-- What holds in front of the computation holds behind it, whatever comes of it. -/
abbrev Upholds (I : σ → Prop) (x : EStateM ε σ α) : Prop := Lands I (fun _ => I) I x

/-- Whatever comes of it, the computation leaves this of the state alone. -/
def Spares (g : σ → β) (x : EStateM ε σ α) : Prop := ∀ s, g (leaves (x s)) = g s

namespace Spares

variable {γ : Type} {g : σ → γ}

theorem pure (a : α) : Spares g (pure a : EStateM ε σ α) := fun _ => rfl

theorem throw (e : ε) : Spares g (throw e : EStateM ε σ α) := fun _ => rfl

theorem get : Spares g (get : EStateM ε σ σ) := fun _ => rfl

theorem modify {f : σ → σ} (h : ∀ s, g (f s) = g s) : Spares g (modify f : EStateM ε σ PUnit) := h

theorem bind {x : EStateM ε σ α} {f : α → EStateM ε σ β} (hx : Spares g x)
    (hf : ∀ a, Spares g (f a)) : Spares g (x >>= f) := by
  intro s
  have hs := hx s
  cases h : x s with
  | ok a t =>
    rw [h] at hs
    rw [bind_of_ok h]
    exact (hf a t).trans hs
  | error e t =>
    rw [h] at hs
    rw [bind_of_error h]
    exact hs

theorem eq_of_ok {x : EStateM ε σ α} {s s' : σ} {a : α} (hx : Spares g x) (h : x s = .ok a s') :
    g s' = g s := by
  have hs := hx s
  rwa [h] at hs

/-- What depends on nothing else is upheld. -/
theorem upholds {x : EStateM ε σ α} (hx : Spares g x) {I : γ → Prop} :
    Upholds (fun s => I (g s)) x := by
  intro s hs
  rw [← hx s] at hs
  cases h : x s with
  | ok a t =>
    rw [h] at hs
    exact hs
  | error e t =>
    rw [h] at hs
    exact hs

end Spares

end Effect

namespace Loop

variable {ε σ β ρ : Type}

/-- What holds at the start of a loop and is kept by its rounds leads to what the last round makes
of it. -/
theorem run_induction {body : β → EStateM ε σ (β ⊕ ρ)} {exhausted : ε} {I : β → σ → Prop}
    {Q : ρ → σ → Prop} (hnext : ∀ b s b' s', I b s → body b s = .ok (.inl b') s' → I b' s')
    (hlast : ∀ b s r s', I b s → body b s = .ok (.inr r) s' → Q r s') {n : Nat} {b : β} {s s' : σ}
    {r : ρ} (hI : I b s) (h : run body exhausted n b s = .ok r s') : Q r s' := by
  induction n generalizing b s with
  | zero => cases h
  | succ n ih =>
    rw [run_succ] at h
    cases hb : body b s with
    | error e t => rw [hb] at h; cases h
    | ok x t =>
      rw [hb] at h
      cases x with
      | inl b' => exact ih (hnext b s b' t hI hb) h
      | inr r' =>
        cases h
        exact hlast b s r s' hI hb

/-- What holds at the start of a loop and is kept by its rounds leads to what a round that faults
makes of it, if the loop faults. -/
theorem run_faults {body : β → EStateM ε σ (β ⊕ ρ)} {exhausted : ε} {I : β → σ → Prop}
    {Q : ε → σ → Prop} (hnext : ∀ b s b' s', I b s → body b s = .ok (.inl b') s' → I b' s')
    (hfault : ∀ b s e s', I b s → body b s = .error e s' → Q e s')
    (hexhausted : ∀ b s, I b s → Q exhausted s) {n : Nat} {b : β} {s s' : σ} {e : ε}
    (hI : I b s) (h : run body exhausted n b s = .error e s') : Q e s' := by
  induction n generalizing b s with
  | zero =>
    cases h
    exact hexhausted _ _ hI
  | succ n ih =>
    rw [run_succ] at h
    cases hb : body b s with
    | error e' t =>
      rw [hb] at h
      cases h
      exact hfault _ _ _ _ hI hb
    | ok x t =>
      rw [hb] at h
      cases x with
      | inl b' => exact ih (hnext b s b' t hI hb) h
      | inr r' => cases h

/-- What every round keeps, or leaves behind if it is the last one or faults, the loop leaves
behind. -/
theorem run_ends {body : β → EStateM ε σ (β ⊕ ρ)} (exhausted : ε) {I : β → σ → Prop}
    {P : ρ → σ → Prop} {Q : σ → Prop}
    (hround : ∀ b s, I b s →
      Effect.Ends (fun r t => Sum.elim (I · t) (P · t) r) Q (body b s))
    (hstop : ∀ b s, I b s → Q s) (n : Nat) {b : β} {s : σ} (hI : I b s) :
    Effect.Ends P Q (run body exhausted n b s) := by
  induction n generalizing b s with
  | zero => exact hstop b s hI
  | succ n ih =>
    have hb := hround b s hI
    rw [run_succ]
    cases hbody : body b s with
    | error e t =>
      rw [hbody] at hb
      exact hb
    | ok r t =>
      rw [hbody] at hb
      cases r with
      | inl b' => exact ih hb
      | inr r => exact hb

/-- Loops whose rounds have the same outcome from related states have the same outcome. What the
rounds rely on may be more than what their outcomes agree on, if every round that goes on gives it
back. -/
theorem run_agree {Q R : σ → σ → Prop} {body : β → EStateM ε σ (β ⊕ ρ)} {exhausted : ε}
    (hagree : ∀ s t, R s t → Q s t)
    (hbody : ∀ b s t, R s t → Effect.Agree Q (body b s) (body b t))
    (hnext : ∀ b s t b' s' t', R s t → body b s = .ok (.inl b') s' → body b t = .ok (.inl b') t' →
      Q s' t' → R s' t') (n : Nat) :
    ∀ b s t, R s t → Effect.Agree Q (run body exhausted n b s) (run body exhausted n b t) := by
  induction n with
  | zero =>
    intro b s t h
    exact .error (hagree s t h)
  | succ n ih =>
    intro b s t h
    have hb := hbody b s t h
    have hn := hnext b s t
    rw [run_succ, run_succ]
    generalize body b s = x at hb hn
    generalize body b t = y at hb hn
    cases hb with
    | error h' => exact .error h'
    | @ok r s' t' h' =>
      cases r with
      | inl b' => exact ih b' _ _ (hn b' s' t' h rfl rfl h')
      | inr r => exact .ok h'

/-- A loop ends if every round comes closer to the end, where `I n` says that no more than `n`
rounds are missing. Larger bounds on the rounds do not matter. -/
theorem run_of_decreasing {body : β → EStateM ε σ (β ⊕ ρ)} (exhausted : ε)
    {I : Nat → β → σ → Prop} {Q : ρ → σ → Prop}
    (hround : ∀ n b s, I n b s →
      (∃ b' s' n', body b s = .ok (.inl b') s' ∧ n' < n ∧ I n' b' s') ∨
        ∃ r s', body b s = .ok (.inr r) s' ∧ Q r s') {n : Nat} {b : β} {s : σ} (hI : I n b s) :
    ∃ r s', (∀ k, n < k → run body exhausted k b s = .ok r s') ∧ Q r s' := by
  induction n using Nat.strongRecOn generalizing b s with
  | ind n ih =>
    rcases hround n b s hI with ⟨b', s', n', hbody, hn', hI'⟩ | ⟨r, s', hbody, hQ⟩
    · obtain ⟨r, s'', hrun, hQ⟩ := ih n' hn' hI'
      refine ⟨r, s'', fun k hk => ?_, hQ⟩
      obtain ⟨j, rfl⟩ : ∃ j, k = j + 1 := ⟨k - 1, by omega⟩
      rw [run_succ, hbody]
      exact hrun j (by omega)
    · refine ⟨r, s', fun k hk => ?_, hQ⟩
      obtain ⟨j, rfl⟩ : ∃ j, k = j + 1 := ⟨k - 1, by omega⟩
      rw [run_succ, hbody]

/-- A loop whose rounds come closer to the end does not use up a bound that is large enough, where
`I n` says that no more than `n` rounds go on. Its rounds may fault in other ways. -/
theorem run_ne_exhausted {body : β → EStateM ε σ (β ⊕ ρ)} {exhausted : ε} {I : Nat → β → σ → Prop}
    (hnext : ∀ n b s b' s', I n b s → body b s = .ok (.inl b') s' → ∃ n' < n, I n' b' s')
    (hfault : ∀ b s s', body b s ≠ .error exhausted s') {n k : Nat} {b : β} {s s' : σ}
    (hI : I n b s) (hk : n < k) : run body exhausted k b s ≠ .error exhausted s' := by
  induction k generalizing n b s with
  | zero => exact absurd hk (Nat.not_lt_zero n)
  | succ k ih =>
    rw [run_succ]
    cases hbody : body b s with
    | error e t =>
      intro h
      cases h
      exact hfault b s _ hbody
    | ok r t =>
      cases r with
      | inl b' =>
        obtain ⟨n', hn', hI'⟩ := hnext n b s b' t hI hbody
        exact ih hI' (by omega)
      | inr r => exact nofun

/-- So many rounds of a loop lead from one point to another. -/
def Leads (body : β → EStateM ε σ (β ⊕ ρ)) (k : Nat) (b : β) (s : σ) (b' : β) (s' : σ) : Prop :=
  ∀ (exhausted : ε) (n : Nat), run body exhausted (k + n) b s = run body exhausted n b' s'

namespace Leads

variable {body : β → EStateM ε σ (β ⊕ ρ)} {b b₁ b₂ : β} {s s₁ s₂ : σ} {j k : Nat}

protected theorem trans (h : Leads body j b s b₁ s₁) (h' : Leads body k b₁ s₁ b₂ s₂) :
    Leads body (j + k) b s b₂ s₂ := by
  intro exhausted n
  rw [Nat.add_assoc, h exhausted, h' exhausted]

/-- A round that goes on leads to where it goes on. -/
theorem single (h : body b s = .ok (.inl b₁) s₁) : Leads body 1 b s b₁ s₁ := by
  intro exhausted n
  rw [Nat.add_comm, run_succ, h]

/-- A loop that is led to its last round ends with the result of that round, if it may go on for
long enough. -/
theorem run_eq_ok {r : ρ} (h : Leads body k b s b₁ s₁) (hlast : body b₁ s₁ = .ok (.inr r) s₂)
    {exhausted : ε} {n : Nat} (hn : k < n) : run body exhausted n b s = .ok r s₂ := by
  obtain ⟨j, rfl⟩ : ∃ j, n = k + (j + 1) := ⟨n - k - 1, by omega⟩
  rw [h exhausted, run_succ, hlast]

end Leads

end Loop

end Interleave
