import Mathlib.Logic.Relation

/-!
# Fallible programs over a state

`EStateM ε S α` keeps the state when it fails, as a method does that returns early with `?`. `Leads E F m s` says what a
run of `m` from `s` does to the state: steps of `E` if it goes well, steps of `F` if it fails. With `E` part of `F` it
follows the shape of the program: `Leads.pure`, `Leads.throw`, `Leads.bind`, `Leads.get_bind`, `Leads.modify_bind`,
`Leads.ignore`, `Leads.bind_throw`. What every step keeps, a path of steps keeps (`invariant_of_steps`).
`bind_ok` takes a run that went well apart.
-/

namespace Programs

variable {ε S α β : Type}

/-- The state a run leaves. -/
def final (m : EStateM ε S α) (s : S) : S :=
  match m s with
  | .ok _ s' => s'
  | .error _ s' => s'

/-- `let _ = m`: run `m` for its effects and forget how it ended. -/
def ignore (m : EStateM ε S α) : EStateM ε S Unit := fun s => .ok () (final m s)

theorem bind_apply (m : EStateM ε S α) (f : α → EStateM ε S β) (s : S) :
    (m >>= f) s = match m s with
      | .ok a s' => f a s'
      | .error e s' => .error e s' := rfl

/-- A run of a sequence that goes well. -/
theorem bind_ok {m : EStateM ε S α} {f : α → EStateM ε S β} {s u : S} {b : β} :
    (m >>= f) s = .ok b u ↔ ∃ a t, m s = .ok a t ∧ f a t = .ok b u := by
  rw [bind_apply]
  cases m s with
  | ok a t => exact ⟨fun h => ⟨a, t, rfl, h⟩, fun ⟨_, _, h, hf⟩ => by cases h; exact hf⟩
  | error e t => simp

@[simp] theorem get_bind (f : S → EStateM ε S β) (s : S) : (get >>= f) s = f s s := rfl

@[simp] theorem set_bind (t : S) (f : PUnit → EStateM ε S β) (s : S) : (set t >>= f) s = f ⟨⟩ t := rfl

@[simp] theorem modify_bind (g : S → S) (f : PUnit → EStateM ε S β) (s : S) : (modify g >>= f) s = f ⟨⟩ (g s) := rfl

@[simp] theorem pure_apply (a : α) (s : S) : (pure a : EStateM ε S α) s = .ok a s := rfl

@[simp] theorem modify_apply (g : S → S) (s : S) : (modify g : EStateM ε S PUnit) s = .ok ⟨⟩ (g s) := rfl

@[simp] theorem throw_apply (e : ε) (s : S) : (throw e : EStateM ε S α) s = .error e s := rfl

@[simp] theorem throw_bind (e : ε) (f : α → EStateM ε S β) (s : S) : (throw e >>= f) s = .error e s := rfl

theorem final_of_ok {m : EStateM ε S α} {s t : S} {a : α} (h : m s = .ok a t) : final m s = t := by
  simp [final, h]

theorem final_of_error {m : EStateM ε S α} {s t : S} {e : ε} (h : m s = .error e t) : final m s = t := by
  simp [final, h]

theorem final_congr {m n : EStateM ε S α} {s t : S} (h : m s = n t) : final m s = final n t := by
  unfold final
  rw [h]

/-- A run of `m` from `s` does steps of `E` if it goes well, and steps of `F` if it fails. -/
structure Leads (E F : S → S → Prop) (m : EStateM ε S α) (s : S) : Prop where
  ok : ∀ {a t}, m s = .ok a t → Relation.ReflTransGen E s t
  error : ∀ {e t}, m s = .error e t → Relation.ReflTransGen F s t

namespace Leads

open Relation

variable {E F : S → S → Prop} {m : EStateM ε S α} {f : α → EStateM ε S β} {s t : S}

theorem pure (a : α) : Leads E F (Pure.pure a : EStateM ε S α) s where
  ok h := by cases h; exact .refl
  error h := by cases h

theorem throw (e : ε) : Leads E F (MonadExcept.throw e : EStateM ε S α) s where
  ok h := by cases h
  error h := by cases h; exact .refl

theorem of_ok {a : α} (h : m s = .ok a t) (ht : ReflTransGen E s t) : Leads E F m s where
  ok h' := by rw [h] at h'; cases h'; exact ht
  error h' := by rw [h] at h'; cases h'

theorem of_error {e : ε} (h : m s = .error e t) (ht : ReflTransGen F s t) : Leads E F m s where
  ok h' := by rw [h] at h'; cases h'
  error h' := by rw [h] at h'; cases h'; exact ht

theorem of_modify {g : S → S} (h : ReflTransGen E s (g s)) : Leads E F (modify g : EStateM ε S PUnit) s where
  ok h' := by cases h'; exact h
  error h' := by cases h'

/-- **Sequencing**: what comes second starts from where the first one ended well. -/
theorem bind (hEF : ∀ s t, E s t → F s t) (hm : Leads E F m s) (hf : ∀ a t, m s = .ok a t → Leads E F (f a) t) :
    Leads E F (m >>= f) s where
  ok h := by
    obtain ⟨a, t, hmt, hft⟩ := bind_ok.mp h
    exact (hm.ok hmt).trans ((hf a t hmt).ok hft)
  error h := by
    rw [bind_apply] at h
    cases hmt : m s with
    | ok a t =>
      rw [hmt] at h
      exact (ReflTransGen.mono hEF _ _ (hm.ok hmt)).trans ((hf a t hmt).error h)
    | error e t =>
      rw [hmt] at h
      cases h
      exact hm.error hmt

theorem get_bind {f : S → EStateM ε S β} (h : Leads E F (f s) s) : Leads E F (get >>= f) s :=
  ⟨fun h' => h.ok h', fun h' => h.error h'⟩

theorem set_bind {f : PUnit → EStateM ε S β} (hEF : ∀ s t, E s t → F s t) (hs : ReflTransGen E s t)
    (h : Leads E F (f ⟨⟩) t) : Leads E F (set t >>= f) s where
  ok h' := hs.trans (h.ok h')
  error h' := (ReflTransGen.mono hEF _ _ hs).trans (h.error h')

theorem modify_bind {f : PUnit → EStateM ε S β} {g : S → S} (hEF : ∀ s t, E s t → F s t)
    (hs : ReflTransGen E s (g s)) (h : Leads E F (f ⟨⟩) (g s)) : Leads E F (modify g >>= f) s where
  ok h' := hs.trans (h.ok h')
  error h' := (ReflTransGen.mono hEF _ _ hs).trans (h.error h')

/-- What is ignored does not fail. -/
theorem ignore (hm : Leads E E m s) : Leads E F (Programs.ignore m) s where
  ok h := by
    simp only [Programs.ignore, final] at h
    cases hmt : m s with
    | ok a t => rw [hmt] at h; cases h; exact hm.ok hmt
    | error e t => rw [hmt] at h; cases h; exact hm.error hmt
  error h := by cases h

/-- What is followed by a `throw` never goes well. -/
theorem bind_throw {e : ε} (hm : Leads F F m s) :
    Leads E F (m >>= fun _ => (MonadExcept.throw e : EStateM ε S β)) s where
  ok h := by
    obtain ⟨_, _, _, h⟩ := bind_ok.mp h
    cases h
  error h := by
    rw [bind_apply] at h
    cases hmt : m s with
    | ok a t => rw [hmt] at h; cases h; exact hm.ok hmt
    | error e t => rw [hmt] at h; cases h; exact hm.error hmt

theorem mono {E' F' : S → S → Prop} (hm : Leads E F m s) (hE : ∀ s t, E s t → E' s t) (hF : ∀ s t, F s t → F' s t) :
    Leads E' F' m s :=
  ⟨fun h => ReflTransGen.mono hE _ _ (hm.ok h), fun h => ReflTransGen.mono hF _ _ (hm.error h)⟩

end Leads

/-- **The invariant rule.** -/
theorem invariant_of_steps {E : S → S → Prop} {P : S → Prop} {s t : S} (h : Relation.ReflTransGen E s t)
    (hE : ∀ s t, E s t → P s → P t) (hs : P s) : P t := by
  induction h with
  | refl => exact hs
  | tail _ hstep ih => exact hE _ _ hstep ih

end Programs
