import Rnet.EventLoop.Errors

/-!
# What a shutdown leaves

`shutdown` gives up the listeners and closes the connections, whatever the poller answers (`shutdown_eq`). A connection
whose socket the poller does not let go stays in the slab; if it lets all of them go (`Released`), none is left
(`shutdown_empties`).
-/

namespace Rnet

open Programs Relation

variable {η κ Msg : Type}

namespace EventLoop

/-- No connections are left. -/
def Emptied (el : EventLoop η κ) : Prop := ∀ k, el.connections.get k = none

/-- The poller lets the connections go in a shutdown, after its answers for the listeners. -/
def Released (el : EventLoop η κ) : Prop :=
  ∀ r ∈ (el.poll.results.drop (el.listeners.getD []).length).take el.connections.keys.length, r = .ok ()

variable {el el' t : EventLoop η κ} {key : Nat}

theorem emptied_iff : el.Emptied ↔ el.connections.keys = [] := by
  constructor
  · intro h
    rw [List.eq_nil_iff_forall_not_mem]
    intro k hk
    obtain ⟨i, hi⟩ := Slab.mem_keys.mp hk
    rw [h k] at hi
    cases hi
  · intro h k
    cases hi : el.connections.get k with
    | none => rfl
    | some i =>
      have := Slab.mem_keys.mpr ⟨i, hi⟩
      rw [h] at this
      cases this

theorem deregisterAll_eq : ∀ (ls : List Listener) (el : EventLoop η κ),
    deregisterAll ls el = .ok ⟨⟩ { el with poll := { el.poll with results := el.poll.results.drop ls.length } }
  | [], _ => rfl
  | _ :: ls, el => by
    show deregisterAll ls el.polled = _
    rw [deregisterAll_eq ls, polled, List.drop_tail, List.length_cons]

variable [Codec κ Msg] [EventHandler η κ Msg]

/-- **A shutdown** gives up the listeners, and then closes the connections one after the other. -/
theorem shutdown_eq (el : EventLoop η κ) : shutdown el =
    closeAll el.connections.keys
      { el with
        poll := { el.poll with results := el.poll.results.drop (el.listeners.getD []).length }
        listeners := none } := by
  unfold shutdown
  rw [Programs.get_bind, bind_apply, deregisterAll_eq]
  rfl

/-- Closing asks the poller at most once. -/
theorem closeConnection_final (key : Nat) (graceful : Bool) (el : EventLoop η κ) :
    (final (closeConnection key graceful) el).listeners = el.listeners ∧
      el.Keeps (final (closeConnection key graceful) el) ∧
      ((final (closeConnection key graceful) el).poll.results = el.poll.results ∨
        (final (closeConnection key graceful) el).poll.results = el.poll.results.tail) ∧
      ((∀ e, el.poll.results.head? ≠ some (.error e)) →
        (final (closeConnection key graceful) el).connections.get key = none) := by
  cases hi : el.connections.get key with
  | none =>
    rw [final_of_ok (closeConnection_none hi graceful)]
    exact ⟨rfl, .of_eq rfl, Or.inl rfl, fun _ => hi⟩
  | some i =>
    have hk := fun t (h : ReflTransGen (Effect True key) el t) => keeps_of_effects (effects_any h)
    rcases closeConnection_cases hi graceful with ⟨t, h, ht⟩ | ⟨e, h, he⟩
    · have hkeeps := hk t ((closeConnection_leads key graceful el).ok h)
      have hnone := closeConnection_ok h
      rw [final_of_ok h]
      rcases ht with rfl | rfl
      · exact ⟨rfl, hkeeps, Or.inl rfl, fun _ => hnone⟩
      · exact ⟨rfl, hkeeps, Or.inr rfl, fun _ => hnone⟩
    · have hkeeps := hk _ ((closeConnection_leads key graceful el).error h)
      rw [final_of_error h]
      exact ⟨rfl, hkeeps, Or.inr rfl, fun hne => absurd he (hne e)⟩

theorem closeAll_cons (key : Nat) (keys : List Nat) (el : EventLoop η κ) :
    closeAll (key :: keys) el = closeAll keys (final (closeConnection key true) el) := rfl

theorem closeAll_listeners : ∀ (keys : List Nat) (el : EventLoop η κ), closeAll keys el = .ok ⟨⟩ t →
    t.listeners = el.listeners ∧ el.Keeps t
  | [], el, h => by
    cases h
    exact ⟨rfl, .of_eq rfl⟩
  | key :: keys, el, h => by
    obtain ⟨hl, hk, -, -⟩ := closeConnection_final key true el
    obtain ⟨hl', hk'⟩ := closeAll_listeners keys _ (closeAll_cons key keys el ▸ h)
    exact ⟨hl'.trans hl, hk.trans hk'⟩

/-- If the poller lets them go, all connections are closed. -/
theorem closeAll_empties : ∀ (keys : List Nat) (el : EventLoop η κ),
    (∀ r ∈ el.poll.results.take keys.length, r = .ok ()) → closeAll keys el = .ok ⟨⟩ t →
      ∀ k ∈ keys, t.connections.get k = none
  | [], _, _, _ => by simp
  | key :: keys, el, hres, h => by
    rw [closeAll_cons] at h
    obtain ⟨-, -, hr, hnone⟩ := closeConnection_final key true el
    have hhead : ∀ e, el.poll.results.head? ≠ some (.error e) := by
      intro e he
      cases hl : el.poll.results with
      | nil => rw [hl] at he; cases he
      | cons r rs =>
        rw [hl] at he hres
        cases he
        cases hres _ List.mem_cons_self
    have hrest : ∀ r ∈ (final (closeConnection key true) el).poll.results.take keys.length, r = .ok () := by
      intro r hmem
      refine hres r ?_
      rcases hr with hr | hr
      · rw [hr] at hmem
        exact (List.take_subset_take_left _ (Nat.le_succ _)) hmem
      · rw [hr] at hmem
        cases hl : el.poll.results with
        | nil => rw [hl] at hmem; simp at hmem
        | cons r' rs =>
          rw [hl] at hmem
          exact List.mem_cons_of_mem _ hmem
    intro k hk
    rcases List.mem_cons.mp hk with rfl | hk
    · have hn := hnone hhead
      cases hj : t.connections.get k with
      | none => rfl
      | some j =>
        obtain ⟨i, hi, -⟩ := (closeAll_listeners keys _ h).2 k j hj
        rw [hn] at hi
        cases hi
    · exact closeAll_empties keys _ hrest h k hk

theorem shutdown_listeners (h : shutdown el = .ok ⟨⟩ t) : t.listeners = none := by
  rw [shutdown_eq] at h
  exact (closeAll_listeners _ _ h).1

/-- **A shutdown closes every connection** that the poller lets go. -/
theorem shutdown_empties (hrel : el.Released) (h : shutdown el = .ok ⟨⟩ t) : t.Emptied := by
  rw [shutdown_eq] at h
  have hall : ∀ k ∈ el.connections.keys, t.connections.get k = none := by
    refine closeAll_empties _ _ ?_ h
    exact hrel
  intro k
  cases hj : t.connections.get k with
  | none => rfl
  | some j =>
    obtain ⟨i, hi, -⟩ := (closeAll_listeners _ _ h).2 k j hj
    rw [hall k (Slab.mem_keys.mpr ⟨i, hi⟩)] at hj
    cases hj

end EventLoop
end Rnet
