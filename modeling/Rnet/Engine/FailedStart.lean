import Rnet.Engine.Startup

/-!
# A start-up that fails

When a step with a `?` fails, `run` returns its error and does nothing else: threads that it has spawned go on, and
nobody joins or stops them. `run_reuse_port` makes everything first and spawns then, so that a failed start leaves
nothing running; `run_user_lb` spawns each loop before it makes the next one, so that nothing is left only if the step
that fails comes before the first loop is made (`failed_start_clean`, `failed_start_leaves_loop`).
-/

namespace Rnet

open Programs Relation Runs

variable {η κ Msg : Type}

namespace Startup

/-- No thread of a loop or of the acceptor is running. -/
structure NothingRuns (s : Startup η κ) : Prop where
  eventloops : ∀ p < s.spawned, ∀ m, s.engine.eventloops[p]? = some m → ¬m.phase.Live
  acceptor : ∀ a, s.acceptor = some a → a.thread = none ∨ a.thread = some .stopped

/-- A step of `run` that fails makes a listener or the first loop (or the acceptor, with no loop at all). -/
def FailsEarly (s : Startup η κ) : StartupLabel η → Prop
  | .fail => s.engine.eventloops = []
  | .run | .call | .acceptor | .acceptorReturns | .acceptorFails | .engine _ => True

/-- The acceptor's thread comes last, and with `reuse_port` the threads of the loops come when all loops are made. -/
structure Staged (s : Startup η κ) : Prop where
  acceptor : s.run ≠ .joining → ∀ a, s.acceptor = some a → a.thread = none
  reusePort : s.mode = .reusePort → s.run = .making ∨ s.run = .setWorkers ∨ s.run = .failed → s.spawned = 0
  userLb : s.mode = .reusePort → s.run ≠ .newAcceptor
  spawned : s.spawned ≤ s.engine.eventloops.length

variable {s s' : Startup η κ}

theorem initial_staged {mode : Mode} {minted : Nat} {cores : List (EventLoop η κ)} :
    (initial mode minted cores).Staged where
  acceptor _ a ha := by cases ha
  reusePort _ _ := rfl
  userLb _ := by simp [initial]
  spawned := Nat.le_refl 0

theorem Staged.runNext (h : s.Staged) (hrun : s.runNext = some s') : s'.Staged := by
  unfold Startup.runNext at hrun
  cases hphase : s.run with
  | making =>
    have hne : s.run ≠ .joining := by simp [hphase]
    simp only [hphase] at hrun
    cases hcores : s.cores with
    | nil =>
      rw [hcores] at hrun
      cases hrun
      exact ⟨fun _ => h.acceptor hne, fun hmode _ => h.reusePort hmode (Or.inl hphase), fun _ => by simp, h.spawned⟩
    | cons el cores =>
      rw [hcores] at hrun
      cases hrun
      refine ⟨fun _ => h.acceptor hne, fun hmode _ => ?_, h.userLb, ?_⟩
      · have hmode : s.mode = .reusePort := hmode
        simpa [make, hmode] using h.reusePort hmode (Or.inl hphase)
      · -- a loop is made for each thread
        have hle := h.spawned
        simp only [make, List.length_append, List.length_singleton]
        split <;> omega
  | setWorkers =>
    have hne : s.run ≠ .joining := by simp [hphase]
    simp only [hphase] at hrun
    cases hrun
    refine ⟨fun _ => h.acceptor hne, fun hmode hr => ?_, fun hmode => ?_, h.spawned⟩
    · have hmode : s.mode = .reusePort := hmode
      simp [hmode] at hr
    · have hmode : s.mode = .reusePort := hmode
      simp [hmode]
  | newAcceptor =>
    simp only [hphase] at hrun
    cases hrun
    exact ⟨fun _ a ha => by cases ha; rfl, fun _ hr => by simp at hr, fun _ => by simp, h.spawned⟩
  | setAcceptor =>
    have hne : s.run ≠ .joining := by simp [hphase]
    simp only [hphase] at hrun
    cases hrun
    exact ⟨fun _ => h.acceptor hne, fun _ hr => by simp at hr, fun _ => by simp, h.spawned⟩
  | spawnAcceptor =>
    simp only [hphase] at hrun
    cases hrun
    exact ⟨fun hne => absurd rfl hne, fun _ hr => by simp at hr, fun _ => by simp, h.spawned⟩
  | spawning =>
    have hne : s.run ≠ .joining := by simp [hphase]
    simp only [hphase] at hrun
    split at hrun
    · rename_i hlt
      cases hrun
      exact ⟨fun _ => h.acceptor hne, fun _ hr => by simp at hr, fun _ => by simp, hlt⟩
    · cases hrun
      exact ⟨fun hne => absurd rfl hne, fun _ hr => by simp at hr, fun _ => by simp, h.spawned⟩
  | joining => simp only [hphase] at hrun; cases hrun
  | failed => simp only [hphase] at hrun; cases hrun

/-- **A step that fails** ends `run` and does nothing else. -/
theorem runFails_some (h : s.runFails = some s') :
    (s.run = .making ∨ s.run = .newAcceptor) ∧ s' = { s with run := .failed } := by
  unfold runFails at h
  split at h
  · rename_i hrun
    exact ⟨Or.inl hrun, (Option.some.inj h).symm⟩
  · rename_i hrun
    exact ⟨Or.inr hrun, (Option.some.inj h).symm⟩
  all_goals cases h

/-- What goes well does not fail. -/
theorem runNext_not_failed (h : s.runNext = some s') : s'.run ≠ .failed := by
  unfold runNext at h
  split at h
  · rename_i hrun
    split at h <;> cases h
    · simp
    · simp [make, hrun]
  · cases h
    cases s.mode <;> simp
  · cases h
    simp
  · cases h
    simp
  · cases h
    simp
  · rename_i hrun
    split at h <;> cases h <;> simp [hrun]
  all_goals cases h

variable [Codec κ Msg] [EventHandler η κ Msg]

/-- The call does nothing to `run`, to the threads and to where the acceptor stands, and makes no loop. -/
theorem callNext_frame (h : s.callNext = some s') : s'.mode = s.mode ∧ s'.run = s.run ∧ s'.spawned = s.spawned ∧
    s'.acceptor.map Acceptor.thread = s.acceptor.map Acceptor.thread ∧
    s'.engine.eventloops.length = s.engine.eventloops.length := by
  unfold callNext at h
  split at h
  · split at h <;> cases h
    exact ⟨rfl, rfl, rfl, rfl, rfl⟩
  · cases h
    exact ⟨rfl, rfl, rfl, by rw [Option.map_map]; rfl, rfl⟩
  · cases h
    exact ⟨rfl, rfl, rfl, by rw [Option.map_map]; rfl, rfl⟩
  · split at h <;> cases h <;> exact ⟨rfl, rfl, rfl, rfl, rfl⟩
  · split at h
    · obtain ⟨engine, hengine, rfl⟩ := Option.map_eq_some_iff.mp h
      exact ⟨rfl, rfl, rfl, rfl, Engine.step_length hengine⟩
    · cases h
      exact ⟨rfl, rfl, rfl, rfl, rfl⟩
  · cases h

/-- Only an acceptor with a thread goes on. -/
theorem acceptor_thread {l : StartupLabel η} (hl : l = .acceptor ∨ l = .acceptorReturns ∨ l = .acceptorFails)
    (h : s.step l = some s') : ∃ a, s.acceptor = some a ∧ a.thread ≠ none := by
  rcases hl with rfl | rfl | rfl
  · obtain ⟨a', ha, -⟩ := Option.map_eq_some_iff.mp h
    obtain ⟨a, ha, hnext⟩ := Option.bind_eq_some_iff.mp ha
    refine ⟨a, ha, fun hnone => ?_⟩
    simp [acceptorNext, hnone] at hnext
  · simp only [Startup.step] at h
    split at h
    · rename_i ha
      exact ⟨_, ha, by simp⟩
    · cases h
  · simp only [Startup.step] at h
    split at h
    · rename_i ha
      exact ⟨_, ha, by simp⟩
    · cases h

theorem Staged.step (h : s.Staged) {l : StartupLabel η} (hstep : s.step l = some s') : s'.Staged := by
  cases l with
  | run => exact h.runNext hstep
  | fail =>
    obtain ⟨hrun, rfl⟩ := runFails_some hstep
    refine ⟨fun _ => h.acceptor (by rcases hrun with hrun | hrun <;> simp [hrun]), fun hmode _ => ?_, fun _ => by simp,
      h.spawned⟩
    rcases hrun with hrun | hrun
    · exact h.reusePort hmode (Or.inl hrun)
    · exact absurd hrun (h.userLb hmode)
  | call =>
    obtain ⟨hmode, hrun, hspawned, hthread, hlength⟩ := callNext_frame hstep
    refine ⟨fun hne a ha => ?_, fun hm hr => ?_, fun hm => hrun ▸ h.userLb (hmode ▸ hm), ?_⟩
    · rw [ha, Option.map_some] at hthread
      obtain ⟨a₀, ha₀, hsame⟩ := Option.map_eq_some_iff.mp hthread.symm
      exact hsame ▸ h.acceptor (hrun ▸ hne) a₀ ha₀
    · exact hspawned.trans (h.reusePort (hmode ▸ hm) (hrun ▸ hr))
    · rw [hspawned, hlength]
      exact h.spawned
  | acceptor | acceptorReturns | acceptorFails =>
    obtain ⟨a₀, ha₀, hthread⟩ := acceptor_thread (by simp) hstep
    obtain ⟨a, a', -, rfl, -⟩ := step_acceptor (by simp) hstep
    exact { h with acceptor := fun hne _ _ => absurd (h.acceptor hne a₀ ha₀) hthread }
  | engine l =>
    rcases engineNext_some hstep with rfl | ⟨engine, hengine, rfl⟩
    · exact h
    · exact { h with spawned := by rw [Engine.step_length hengine]; exact h.spawned }

theorem step_mode {l : StartupLabel η} (h : s.step l = some s') : s'.mode = s.mode := by
  cases l with
  | run => exact (runNext_frame h).1
  | fail =>
    obtain ⟨-, rfl⟩ := runFails_some h
    rfl
  | call => exact (callNext_frame h).1
  | acceptor | acceptorReturns | acceptorFails =>
    obtain ⟨a, a', -, rfl, -⟩ := step_acceptor (by simp) h
    rfl
  | engine l => rcases engineNext_some h with rfl | ⟨engine, -, rfl⟩ <;> rfl

/-- With `reuse_port` nothing is spawned when a step fails, and otherwise nothing before the first loop. -/
theorem Staged.spawned_of_fails (h : s.Staged) (hfails : s.runFails = some s')
    (hearly : s.mode = .reusePort ∨ s.engine.eventloops = []) : s.spawned = 0 := by
  rcases hearly with hmode | hnone
  · rcases (runFails_some hfails).1 with hrun | hrun
    · exact h.reusePort hmode (Or.inl hrun)
    · exact absurd hrun (h.userLb hmode)
  · have hle := h.spawned
    rw [hnone] at hle
    exact Nat.le_zero.mp hle

/-- **A failed start leaves nothing running** with `reuse_port`, and otherwise if the step that fails comes before the
first loop is made. -/
theorem failed_start_clean {mode : Mode} {minted : Nat} {cores : List (EventLoop η κ)} {ls : List (StartupLabel η)}
    (hrun : Runs.run step (initial mode minted cores) ls = some s) (hfailed : s.run = .failed)
    (hearly : mode = .reusePort ∨ Along step FailsEarly (initial mode minted cores) ls) : s.NothingRuns := by
  have hok : Along step (fun s l => mode = .reusePort ∨ FailsEarly s l) (initial mode minted cores) ls := by
    rcases hearly with hmode | hearly
    · exact .of_between fun _ _ _ _ _ _ => Or.inl hmode
    · exact hearly.upgrade (P := fun _ => True) (fun _ _ _ _ _ _ => trivial) (fun _ _ _ => Or.inr) trivial
  have hstep : ∀ (s : Startup η κ) (l : StartupLabel η) (s' : Startup η κ),
      s.Staged ∧ s.mode = mode ∧ (s.run = .failed → s.spawned = 0) → mode = .reusePort ∨ s.FailsEarly l →
      s.step l = some s' → s'.Staged ∧ s'.mode = mode ∧ (s'.run = .failed → s'.spawned = 0) := by
    intro s l s' ⟨hs, hmode, hnone⟩ hl h
    refine ⟨hs.step h, (step_mode h).trans hmode, fun hf => ?_⟩
    cases l with
    | run => exact absurd hf (runNext_not_failed h)
    | fail =>
      have h : s.runFails = some s' := h
      have hzero := hs.spawned_of_fails h (hl.imp_left hmode.trans)
      obtain ⟨-, rfl⟩ := runFails_some h
      exact hzero
    | call =>
      obtain ⟨-, hr, hspawned, -⟩ := callNext_frame h
      exact hspawned.trans (hnone (hr ▸ hf))
    | acceptor | acceptorReturns | acceptorFails =>
      obtain ⟨a, a', -, rfl, -⟩ := step_acceptor (by simp) h
      exact hnone hf
    | engine l =>
      rcases engineNext_some h with rfl | ⟨engine, -, rfl⟩ <;> exact hnone hf
  obtain ⟨hs, -, hnone⟩ := run_invariant hstep ⟨initial_staged, rfl, by simp [initial]⟩ hok hrun
  refine ⟨fun p hp => ?_, fun a ha => Or.inl (hs.acceptor (by simp [hfailed]) a ha)⟩
  rw [hnone hfailed] at hp
  cases hp

/-! ## Failed starts -/

open EventLoop Engine

/-- With `reuse_port` the second loop cannot be made, in the other mode the first one. -/
theorem failed_start_clean_both :
    (∃ s, Runs.run step (initial .reusePort 0 (crew 2)) [.run, .fail] = some s ∧ s.run = .failed ∧ s.NothingRuns) ∧
    ∃ s, Runs.run step (initial .userLb 0 (crew 2)) [.fail] = some s ∧ s.run = .failed ∧ s.NothingRuns := by
  constructor
  · obtain ⟨s, hs, hf⟩ : ∃ s, Runs.run step (initial .reusePort 0 (crew 2)) [.run, .fail] = some s ∧ s.run = .failed :=
      ⟨_, rfl, rfl⟩
    exact ⟨s, hs, hf, failed_start_clean hs hf (Or.inl rfl)⟩
  · obtain ⟨s, hs, hf⟩ : ∃ s, Runs.run step (initial .userLb 0 (crew 2)) [.fail] = some s ∧ s.run = .failed :=
      ⟨_, rfl, rfl⟩
    exact ⟨s, hs, hf, failed_start_clean hs hf (Or.inr ⟨rfl, fun _ _ => trivial⟩)⟩

/-- With the user's load balancing, the first loop waits in `poll` when the second one cannot be made: `run` returns the
error, and the loop is still there. -/
theorem failed_start_leaves_loop : ∃ s, Runs.run step (initial .userLb 0 (crew 2))
      [.run, .engine (.loop 0 .advance), .engine (.loop 0 .advance), .fail] = some s ∧
    s.run = .failed ∧ (∃ m, s.engine.eventloops[0]? = some m ∧ m.phase = .polling false) ∧ ¬s.NothingRuns := by
  refine ⟨_, rfl, rfl, ⟨_, rfl, rfl⟩, fun h => h.eventloops 0 (Nat.zero_lt_one) _ rfl trivial⟩

end Startup
end Rnet
