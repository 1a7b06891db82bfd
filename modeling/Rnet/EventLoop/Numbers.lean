import Rnet.EventLoop.Identity

/-!
# The descriptors a loop has issued

`issued` lists the incarnations `on_open` was called on, by number and descriptor. A loop draws each number from the
counter that all loops share, so its numbers are different, below the counter, and in every step the new ones are at
least what the counter was before (`Evolves.grows`). Every live connection was issued its descriptor (`Numbered`).
-/

namespace Rnet

open Programs Relation

variable {η κ Msg : Type}

/-- The number and the descriptor of a new incarnation. -/
def Obs.issued : Obs κ → Option (Nat × Gfd)
  | .opens before _ _ => some (before.id, before.conn.gfd)
  | .traffic _ _ _ | .merged _ | .closes _ _ _ | .ticks _ _ _ | .drops _ => none

/-- The incarnations made so far. -/
def issued (trace : List (Obs κ)) : List (Nat × Gfd) := trace.filterMap Obs.issued

theorem issued_append (trace new : List (Obs κ)) : issued (trace ++ new) = issued trace ++ issued new :=
  List.filterMap_append

namespace EventLoop

/-- The numbers of a loop are different and below the counter, its descriptors are made from them, and every live
connection has its own. -/
structure Numbered (el : EventLoop η κ) : Prop where
  sound : el.Sound
  issued : ∀ p ∈ issued el.trace, p.1 < el.minted ∧ ∃ fd k, p.2 = .new p.1 fd el.loopId k
  once : ((Rnet.issued el.trace).map Prod.fst).Nodup
  live : ∀ {k i}, el.connections.get k = some i → (i.id, i.conn.gfd) ∈ Rnet.issued el.trace

/-- The counter does not fall, and new numbers come from it. -/
structure Grows (el t : EventLoop η κ) : Prop where
  loopId : t.loopId = el.loopId
  minted : el.minted ≤ t.minted
  issued : ∃ new, Rnet.issued t.trace = Rnet.issued el.trace ++ new ∧ ∀ p ∈ new, el.minted ≤ p.1

variable {el el' t : EventLoop η κ} {key : Nat} {serving : Prop}

theorem Grows.refl (el : EventLoop η κ) : el.Grows el := ⟨rfl, Nat.le_refl _, [], by simp, by simp⟩

theorem Grows.trans (h : el.Grows el') (h' : el'.Grows t) : el.Grows t where
  loopId := h'.loopId.trans h.loopId
  minted := Nat.le_trans h.minted h'.minted
  issued := by
    obtain ⟨new, hn, hle⟩ := h.issued
    obtain ⟨new', hn', hle'⟩ := h'.issued
    refine ⟨new ++ new', by rw [hn', hn, List.append_assoc], fun p hp => ?_⟩
    rcases List.mem_append.mp hp with hp | hp
    · exact hle p hp
    · exact Nat.le_trans h.minted (hle' p hp)

/-- Nothing was issued. -/
theorem Grows.of_eq (hl : t.loopId = el.loopId) (hm : el.minted ≤ t.minted)
    (ht : Rnet.issued t.trace = Rnet.issued el.trace) : el.Grows t := ⟨hl, hm, [], by simp [ht], by simp⟩

theorem Numbered.keeps (h : el.Numbered) (hk : el.Keeps t) (hl : t.loopId = el.loopId) (hm : el.minted ≤ t.minted)
    (ht : Rnet.issued t.trace = Rnet.issued el.trace) : t.Numbered where
  sound := h.sound.keeps hk hm hl
  issued p hp := by
    rw [ht] at hp
    obtain ⟨hlt, hp⟩ := h.issued p hp
    exact ⟨Nat.lt_of_lt_of_le hlt hm, by rw [hl]; exact hp⟩
  once := by
    rw [ht]
    exact h.once
  live {k j} hj := by
    obtain ⟨i, hi, hij⟩ := hk k j hj
    rw [ht, hij.id, hij.gfd]
    exact h.live hi

variable [Codec κ Msg] [EventHandler η κ Msg]

/-- An effect issues nothing. -/
theorem Effect.issued (h : Effect serving key el el') : Rnet.issued el'.trace = Rnet.issued el.trace := by
  cases h with
  | neutral h => rw [h.trace]
  | traffic i s a n s' bs =>
    show Rnet.issued ((el.trace ++ [_]) ++ [_]) = _
    rw [issued_append, issued_append]
    exact (List.append_nil _).trans (List.append_nil _)
  | lastTraffic i s a n s' bs =>
    show Rnet.issued (el.trace ++ [_]) = _
    rw [issued_append]
    exact List.append_nil _
  | closes i graceful hi _ =>
    show Rnet.issued ((el.trace ++ [_]) ++ [_]) = _
    rw [issued_append, issued_append]
    exact (List.append_nil _).trans (List.append_nil _)
  | failsToClose i graceful e hi he _ =>
    show Rnet.issued (el.trace ++ [_]) = _
    rw [issued_append]
    exact List.append_nil _
  | ticks op hd conns hop _ =>
    unfold tickOp
    split <;> rfl
  | recordsTick before after action _ =>
    show Rnet.issued (el.trace ++ [_]) = _
    rw [issued_append]
    exact List.append_nil _
  | push _ _ _ | serves _ _ _ _ _ | readsNothing _ _ _ _ _ _ _ => rfl

/-- **Opening** issues the next number. -/
theorem opening_issued (el : EventLoop η κ) (socket : Socket) (localAddr peerAddr : NetworkAddress) :
    Rnet.issued (el.opening socket localAddr peerAddr).2.trace =
      Rnet.issued el.trace ++ [(el.minted, .new el.minted socket.fd el.loopId el.connections.vacantKey)] := by
  rw [← incarnation_gfd el socket localAddr peerAddr]
  show Rnet.issued (el.trace ++ [_]) = _
  rw [issued_append]
  rfl

theorem Numbered.issues (h : el.Numbered) (hs : t.Sound) {fd : Int} {k : Nat} (hl : t.loopId = el.loopId)
    (hm : t.minted = el.minted + 1)
    (ht : Rnet.issued t.trace = Rnet.issued el.trace ++ [(el.minted, .new el.minted fd el.loopId k)])
    (hlive : ∀ k' j, t.connections.get k' = some j → (j.id, j.conn.gfd) ∈ Rnet.issued t.trace) : t.Numbered where
  sound := hs
  issued p hp := by
    rw [hl, hm]
    rw [ht] at hp
    rcases List.mem_append.mp hp with hp | hp
    · obtain ⟨hlt, hp⟩ := h.issued p hp
      exact ⟨Nat.lt_succ_of_lt hlt, hp⟩
    · rw [List.mem_singleton.mp hp]
      exact ⟨Nat.lt_succ_self _, fd, k, rfl⟩
  once := by
    rw [ht, List.map_append, List.map_singleton, List.nodup_append]
    refine ⟨h.once, by simp, fun n hn n' hn' hnn => ?_⟩
    obtain ⟨p, hp, rfl⟩ := List.mem_map.mp hn
    have := (h.issued p hp).1
    rw [List.mem_singleton] at hn'
    omega
  live {k' j} hj := hlive k' j hj

theorem Evolves.numbered (he : Evolves el t) (h : el.Numbered) : t.Numbered ∧ el.Grows t := by
  have hkeep : ∀ {t : EventLoop η κ}, el.Keeps t → t.loopId = el.loopId → el.minted ≤ t.minted →
      Rnet.issued t.trace = Rnet.issued el.trace → t.Numbered ∧ el.Grows t := fun hk hl hm ht =>
    ⟨h.keeps hk hl hm ht, .of_eq hl hm ht⟩
  have hrecord : ∀ n, Rnet.issued (el.record (.drops n)).trace = Rnet.issued el.trace := fun n => by
    show Rnet.issued (el.trace ++ [_]) = _
    rw [issued_append]
    exact List.append_nil _
  cases he with
  | change hc =>
    rcases hc with ⟨key, he⟩ | hr
    · exact hkeep he.same he.minted.2 (Nat.le_of_eq he.minted.1.symm) he.issued
    · cases hr with
      | admits socket localAddr peerAddr hact =>
        let t := (el.opening socket localAddr peerAddr).2.enter (el.opening socket localAddr peerAddr).1
        have ht : Rnet.issued t.trace = _ := opening_issued el socket localAddr peerAddr
        have hlive : ∀ k j, t.connections.get k = some j → (j.id, j.conn.gfd) ∈ Rnet.issued t.trace := by
          intro k j hj
          rw [ht]
          rcases Slab.of_get_insert (s := el.connections) hj with ⟨-, rfl⟩ | hj
          · refine List.mem_append_right _ (List.mem_singleton.mpr ?_)
            rw [(opening_same el socket localAddr peerAddr).id, opening_gfd]
            rfl
          · exact List.mem_append_left _ (h.live hj)
        exact ⟨h.issues (h.sound.admits socket localAddr peerAddr) rfl rfl ht hlive, rfl, Nat.le_succ _, _, ht, by simp⟩
      | refuses socket localAddr peerAddr hact =>
        let t := (el.opening socket localAddr peerAddr).2
        have ht : Rnet.issued t.trace = _ := opening_issued el socket localAddr peerAddr
        have hlive : ∀ k j, t.connections.get k = some j → (j.id, j.conn.gfd) ∈ Rnet.issued t.trace := fun k j hj => by
          rw [ht]
          exact List.mem_append_left _ (h.live (i := j) (k := k) hj)
        have hs : t.Sound := h.sound.keeps (.of_eq rfl) (Nat.le_succ _) rfl
        exact ⟨h.issues hs rfl rfl ht hlive, rfl, Nat.le_succ _, _, ht, by simp⟩
      | dropsRefused before after action hobs hact => exact hkeep (.of_eq rfl) rfl (Nat.le_refl _) (hrecord _)
  | takes hq => exact hkeep (.of_eq rfl) rfl (Nat.le_refl _) rfl
  | gets priority cmd => exact hkeep (.of_eq rfl) rfl (Nat.le_refl _) rfl
  | mints n => exact hkeep (.of_eq rfl) rfl (Nat.le_add_right _ _) rfl
  | drops hi => exact hkeep (.of_eq rfl) rfl (Nat.le_refl _) (hrecord _)

theorem numbered_of_evolves (hp : ReflTransGen Evolves el t) (h : el.Numbered) : t.Numbered ∧ el.Grows t :=
  invariant_of_steps (P := fun t => t.Numbered ∧ el.Grows t) hp
    (fun _ _ he ht => ⟨(he.numbered ht.1).1, ht.2.trans (he.numbered ht.1).2⟩) ⟨h, .refl el⟩

omit [Codec κ Msg] [EventHandler η κ Msg] in
theorem Fresh.numbered (h : el.Fresh) : el.Numbered := by
  refine ⟨h.sound, fun p hp => ?_, ?_, fun {k i} hi => ?_⟩
  · simp [Rnet.issued, h.trace] at hp
  · simp [Rnet.issued, h.trace]
  · simp [h.connections] at hi

end EventLoop
end Rnet
