import Rnet.EventLoop.Shutdown

/-!
# How a healthy loop fails

A loop is healthy when every live connection has its socket and the poller has no errors in store. A healthy loop stays
healthy (`Effect.healthy`, `Registers.healthy`), so what it runs in one step fails only when no connection is left, or
when the system refuses a wake (`task_fails`).
-/

namespace Rnet

open Programs Relation

variable {η κ Msg : Type}

namespace EventLoop

/-- Every live connection has its socket, and the poller does what it is asked. -/
structure Healthy (el : EventLoop η κ) : Prop where
  socket : ∀ {k i}, el.connections.get k = some i → i.conn.socket.isSome
  results : ∀ r ∈ el.poll.results, r = .ok ()

variable {el el' t : EventLoop η κ} {key : Nat} {serving : Prop} {e : IoError}

theorem Healthy.socketed (h : el.Healthy) : el.Socketed := fun _ _ hi => h.socket hi

theorem Healthy.no_error (h : el.Healthy) (e : IoError) : el.poll.results.head? ≠ some (.error e) := by
  intro he
  cases h.results _ (List.mem_of_mem_head? he)

variable [Codec κ Msg] [EventHandler η κ Msg]

theorem Effect.healthy (he : Effect serving key el el') (h : el.Healthy) : el'.Healthy where
  socket hj := h.socketed.keeps he.same _ _ hj
  results r hr := h.results r (he.results.subset hr)

/-- A registration makes a connection with a socket. -/
theorem Registers.healthy (hr : Registers el el') (h : el.Healthy) : el'.Healthy := by
  cases hr with
  | admits socket localAddr peerAddr hact =>
    refine ⟨fun {k j} hj => ?_, h.results⟩
    rcases Slab.of_get_insert (s := el.connections) hj with ⟨-, rfl⟩ | hj
    · obtain ⟨s, hs, -⟩ := opening_socket el socket localAddr peerAddr
      rw [hs]
      rfl
    · exact h.socket hj
  | refuses socket localAddr peerAddr hact => exact ⟨h.socket, h.results⟩
  | dropsRefused before after action hobs hact => exact ⟨h.socket, h.results⟩

theorem healthy_of_changes (h : ReflTransGen Change el t) (hel : el.Healthy) : t.Healthy :=
  invariant_of_steps h (fun _ _ hc ht => hc.elim (fun ⟨_, he⟩ => he.healthy ht) fun hr => hr.healthy ht) hel

theorem Healthy.released (h : el.Healthy) : el.Released := fun r hr =>
  h.results r ((List.drop_subset _ _) ((List.take_subset _ _) hr))

/-! ## Tasks -/

/-- **A healthy loop fails only when all connections are closed.** -/
theorem FailsBy.emptied {C : EventLoop η κ → Prop} (hf : FailsBy Change C el e t) (h : el.Healthy) : t.Emptied := by
  cases hf with
  | shutdown u v hu hc hs he ht =>
    have hv := shutdown_empties (healthy_of_changes hu h).released hs
    rcases ht with rfl | ⟨id, rfl⟩ <;> exact hv
  | polled u hu he ht => exact absurd he ((healthy_of_changes hu h).no_error e)

/-- What a healthy loop runs in one step fails only when all connections are closed, or when a wake is refused. -/
theorem task_fails {task : Task} (h : el.Healthy) (hset : ∀ k, el.SettledAt k)
    (hwake : task = .command .wake → el.handle.wake.1 = .ok () ∨ el.Emptied) (ht : task.run el = .error e t) :
    t.Emptied := by
  rcases Task.failsBy h.socketed hset ht with hf | ⟨hcmd, he, rfl⟩
  · exact hf.emptied h
  · rcases hwake hcmd with hok | hempty
    · rw [hok] at he
      cases he
    · exact hempty

end EventLoop
end Rnet
