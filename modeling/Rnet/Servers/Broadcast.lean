import Mathlib.Data.List.Nodup
import Rnet.Servers.ChatRoom
import Rnet.Servers.Relay

/-!
# What the chat room sends

A line of a client goes to the worker as a closure that visits the sets of clients and sends the line to all of them but
the sender. A connection is in the set of its loop from its `on_open` to its `on_close`, so every closure that runs
meanwhile finds it there, once (`Joined`, `Sharded`).

So what a client gets between any two states of a run in which it lives is, in the order in which they were submitted,
the lines of the others, each once, up to those that are still on the way, merged with the heartbeats of `on_tick` and
with what other threads send (`messages_arrive`). Lines that come before the worker pool is made are dropped.
-/

namespace Rnet

open Connection

namespace ChatRoomHandler

/-- What `new` makes for `n` event loops. -/
def new (n : Nat) : ChatRoomHandler := ⟨List.replicate n []⟩

/-- The closure that is submitted, by what it captures besides the clients and the engine. -/
structure Closure where
  senderGfd : Gfd
  msg : Bytes
  deriving DecidableEq

/-- The closures that the calls of `on_traffic` submit. -/
def submitted : Obs RawCodec → List Closure
  | .traffic before _ _ => (messages before.conn).map fun msg => ⟨before.conn.gfd, msg⟩
  | .opens _ _ _ | .merged _ | .closes _ _ _ | .ticks _ _ _ | .drops _ => []

/-- What the callbacks do to the clients. -/
def update (h : ChatRoomHandler) : Obs RawCodec → ChatRoomHandler
  | .opens before _ _ => h.join before.conn.gfd
  | .closes before _ _ => h.leave before.conn.gfd
  | .traffic _ _ _ | .merged _ | .ticks _ _ _ | .drops _ => h

/-- What a closure sends. -/
def sends (h : ChatRoomHandler) (closure : Closure) : List (Gfd × Bytes) :=
  (h.clients.flatten.filter fun gfd => gfd ≠ closure.senderGfd).map fun gfd => (gfd, closure.msg)

def work : Work RawCodec Closure ChatRoomHandler := ⟨submitted, update, sends⟩

/-- What it sends to a client with descriptor `g`. -/
def Closure.dataFor (g : Gfd) (closure : Closure) : Bytes := if closure.senderGfd = g then [] else closure.msg

/-! ## The clients -/

variable {h : ChatRoomHandler} {g g' : Gfd} {gfds gfds' : List Gfd} {n k : Nat}

/-- Each set has the clients of its loop. -/
def Sharded (h : ChatRoomHandler) : Prop :=
  ∀ (n : Nat) (gfds : List Gfd), h.clients[n]? = some gfds → gfds.Nodup ∧ ∀ g ∈ gfds, g.eventLoopIndex = n

/-- The descriptor is in the set of its loop. -/
def Joined (h : ChatRoomHandler) (g : Gfd) : Prop := ∃ gfds, h.clients[g.eventLoopIndex]? = some gfds ∧ g ∈ gfds

theorem sharded_new (n : Nat) : (new n).Sharded := by
  intro k gfds hk
  have hmem := List.mem_of_getElem? hk
  rw [List.eq_of_mem_replicate hmem]
  exact ⟨List.nodup_nil, List.forall_mem_nil _⟩

theorem Sharded.modify (hs : h.Sharded) {f : List Gfd → List Gfd}
    (hf : ∀ gfds, gfds.Nodup → (∀ g ∈ gfds, g.eventLoopIndex = k) →
      (f gfds).Nodup ∧ ∀ g ∈ f gfds, g.eventLoopIndex = k) :
    Sharded ⟨h.clients.modify k f⟩ := by
  intro n gfds hn
  rw [show (⟨h.clients.modify k f⟩ : ChatRoomHandler).clients = h.clients.modify k f from rfl,
    List.getElem?_modify] at hn
  cases hget : h.clients[n]? with
  | none =>
    rw [hget] at hn
    cases hn
  | some gfds₀ =>
    rw [hget] at hn
    obtain ⟨hnodup, howned⟩ := hs n gfds₀ hget
    obtain rfl : (if k = n then f gfds₀ else gfds₀) = gfds := Option.some.inj hn
    split
    · rename_i hk
      subst hk
      exact hf gfds₀ hnodup howned
    · exact ⟨hnodup, howned⟩

theorem Sharded.join (hs : h.Sharded) (g : Gfd) : (h.join g).Sharded := by
  refine hs.modify fun gfds hnodup howned => ?_
  split
  · exact ⟨hnodup, howned⟩
  · rename_i hg
    refine ⟨?_, fun g' hg' => ?_⟩
    · rw [List.nodup_append]
      refine ⟨hnodup, List.nodup_singleton g, fun a ha b hb => ?_⟩
      rw [List.mem_singleton.mp hb]
      rintro rfl
      exact hg ha
    · rcases List.mem_append.mp hg' with hg' | hg'
      · exact howned g' hg'
      · rw [List.mem_singleton.mp hg']

theorem Sharded.leave (hs : h.Sharded) (g : Gfd) : (h.leave g).Sharded :=
  hs.modify fun _ hnodup howned => ⟨hnodup.erase g, fun g' hg' => howned g' (List.mem_of_mem_erase hg')⟩

theorem Sharded.update (hs : h.Sharded) (o : Obs RawCodec) : (h.update o).Sharded := by
  cases o with
  | opens before after action => exact hs.join _
  | closes before after action => exact hs.leave _
  | _ => exact hs

theorem Sharded.foldl (trace : List (Obs RawCodec)) : ∀ {h : ChatRoomHandler}, h.Sharded →
    (trace.foldl ChatRoomHandler.update h).Sharded := by
  induction trace with
  | nil => exact fun hs => hs
  | cons o trace ih => exact fun hs => ih (hs.update o)

/-- No client is in two places. -/
theorem Sharded.nodup (hs : h.Sharded) : h.clients.flatten.Nodup := by
  refine List.nodup_flatten.mpr ⟨fun gfds hmem => ?_, List.pairwise_iff_getElem.mpr fun i j hi hj hlt => ?_⟩
  · obtain ⟨n, hn⟩ := List.getElem?_of_mem hmem
    exact (hs n gfds hn).1
  · intro g hg hg'
    have hi' := (hs i _ (List.getElem?_eq_getElem hi)).2 g hg
    have hj' := (hs j _ (List.getElem?_eq_getElem hj)).2 g hg'
    omega

theorem Joined.mem (hg : h.Joined g) : g ∈ h.clients.flatten := by
  obtain ⟨gfds, hget, hmem⟩ := hg
  exact List.mem_flatten.mpr ⟨gfds, List.mem_of_getElem? hget, hmem⟩

theorem joined_join (hlen : g.eventLoopIndex < h.clients.length) : (h.join g).Joined g := by
  obtain ⟨gfds, hget⟩ : ∃ gfds, h.clients[g.eventLoopIndex]? = some gfds := ⟨_, List.getElem?_eq_getElem hlen⟩
  refine ⟨if g ∈ gfds then gfds else gfds ++ [g], ?_, ?_⟩
  · show (h.clients.modify g.eventLoopIndex _)[g.eventLoopIndex]? = _
    rw [List.getElem?_modify_eq, hget]
    rfl
  · split
    · assumption
    · exact List.mem_append_right _ (List.mem_singleton_self g)

theorem Joined.modify (hg : h.Joined g) {f : List Gfd → List Gfd} (hf : ∀ gfds, g ∈ gfds → g ∈ f gfds) :
    Joined ⟨h.clients.modify k f⟩ g := by
  obtain ⟨gfds, hget, hmem⟩ := hg
  refine ⟨if k = g.eventLoopIndex then f gfds else gfds, ?_, ?_⟩
  · show (h.clients.modify k f)[g.eventLoopIndex]? = _
    rw [List.getElem?_modify, hget]
    rfl
  · split
    · exact hf gfds hmem
    · exact hmem

theorem Joined.join (hg : h.Joined g) (g' : Gfd) : (h.join g').Joined g := by
  refine hg.modify fun gfds hmem => ?_
  split
  · exact hmem
  · exact List.mem_append_left _ hmem

theorem Joined.leave (hg : h.Joined g) (hne : g ≠ g') : (h.leave g').Joined g :=
  hg.modify fun _ hmem => (List.mem_erase_of_ne hne).mpr hmem

theorem length_update (h : ChatRoomHandler) (o : Obs RawCodec) : (h.update o).clients.length = h.clients.length := by
  cases o <;> first | rfl | exact List.length_modify _ _ _

/-- **A connection that was opened and not closed** is among the clients. -/
theorem joined_foldl (trace : List (Obs RawCodec)) : ∀ {h : ChatRoomHandler}, g.eventLoopIndex < h.clients.length →
    (∀ before after action, .closes before after action ∈ trace → before.conn.gfd ≠ g) →
      (h.Joined g ∨ ∃ before after action, .opens before after action ∈ trace ∧ before.conn.gfd = g) →
        (trace.foldl update h).Joined g := by
  induction trace with
  | nil =>
    rintro h hlen hclosed (hg | ⟨before, after, action, hmem, -⟩)
    · exact hg
    · cases hmem
  | cons o trace ih =>
    intro h hlen hclosed hg
    refine ih (length_update h o ▸ hlen) (fun before after action hmem => hclosed before after action
      (List.mem_cons_of_mem _ hmem)) ?_
    have hkeep : h.Joined g → (h.update o).Joined g := fun hjoined => by
      cases o with
      | opens before after action => exact hjoined.join _
      | closes before after action => exact hjoined.leave (hclosed before after action List.mem_cons_self).symm
      | _ => exact hjoined
    rcases hg with hg | ⟨before, after, action, hmem, hgfd⟩
    · exact Or.inl (hkeep hg)
    · rcases List.mem_cons.mp hmem with rfl | hmem
      · exact Or.inl (hgfd ▸ joined_join (hgfd.symm ▸ hlen))
      · exact Or.inr ⟨before, after, action, hmem, hgfd⟩

/-! ## One closure -/

/-- A message that goes to different clients. -/
theorem sentTo_map {msg : Bytes} (hnodup : gfds.Nodup) :
    sentTo g (gfds.map fun gfd => (gfd, msg)) = if g ∈ gfds then msg else [] := by
  induction gfds with
  | nil => rfl
  | cons gfd gfds ih =>
    obtain ⟨hnot, hnodup⟩ := List.nodup_cons.mp hnodup
    rw [List.map_cons, sentTo_cons, ih hnodup]
    by_cases hg : gfd = g
    · subst hg
      simp [Command.dataFor, hnot]
    · simp [Command.dataFor, hg, Ne.symm hg]

/-- It goes to each of them once, in whatever order. -/
theorem sentTo_each {msg : Bytes} {ps : List (Gfd × Bytes)} (hnodup : gfds.Nodup)
    (hps : ps.Perm (gfds.map fun gfd => (gfd, msg))) : sentTo g ps = if g ∈ gfds then msg else [] := by
  have hmsg : ps = (ps.map Prod.fst).map fun gfd => (gfd, msg) := by
    rw [List.map_map]
    refine (List.map_id' ps).symm.trans (List.map_congr_left fun p hp => ?_)
    obtain ⟨gfd, -, rfl⟩ := List.mem_map.mp (hps.mem_iff.mp hp)
    rfl
  have hgfds : (ps.map Prod.fst).Perm gfds := by
    have hmap := hps.map Prod.fst
    rwa [List.map_map, show (Prod.fst ∘ fun gfd : Gfd => (gfd, msg)) = id from rfl, List.map_id] at hmap
  rw [hmsg, sentTo_map (hgfds.nodup_iff.mpr hnodup)]
  exact if_congr hgfds.mem_iff rfl rfl

/-- **A closure sends its message to a client** that is not the sender, once. -/
theorem sends_dataFor (hs : h.Sharded) (hg : h.Joined g) {closure : Closure} {ps : List (Gfd × Bytes)}
    (hps : ps.Perm (h.sends closure)) : sentTo g ps = closure.dataFor g := by
  rw [sentTo_each (hs.nodup.filter _) hps, Closure.dataFor]
  by_cases hsender : closure.senderGfd = g
  · rw [if_pos hsender, if_neg fun hmem => ?_]
    exact of_decide_eq_true (List.mem_filter.mp hmem).2 hsender.symm
  · rw [if_neg hsender, if_pos (List.mem_filter.mpr ⟨hg.mem, decide_eq_true (Ne.symm hsender)⟩)]

/-! ## What the callbacks write -/

/-- The loop of `on_traffic` takes input alone. -/
theorem serve_ops {c : Connection RawCodec} {op : Op RawCodec RawMsg} (hop : op ∈ ops c) :
    op = .peek none ∨ ∃ n, op = .nextContiguous n := by
  obtain ⟨r, hr⟩ := serve_returns c
  have hops : ops c = r.ops := by simp [ops, hr]
  rw [hops] at hop
  have hall : ∀ s : Served, (∀ op ∈ s.ops, op = .peek none ∨ ∃ n, op = .nextContiguous n) → ∀ n, ∀ op ∈ s.ops ++
      [.peek none, .nextContiguous n], op = (.peek none : Op RawCodec RawMsg) ∨ ∃ n, op = .nextContiguous n := by
    intro s hs n op hop
    rcases List.mem_append.mp hop with hop | hop
    · exact hs op hop
    · rcases List.mem_pair.mp hop with rfl | rfl
      · exact Or.inl rfl
      · exact Or.inr ⟨n, rfl⟩
  refine Loops.loop_invariant (I := fun s : Served => ∀ op ∈ s.ops, op = .peek none ∨ ∃ n, op = .nextContiguous n)
    (Q := fun s : Served => ∀ op ∈ s.ops, op = .peek none ∨ ∃ n, op = .nextContiguous n) (fun s s' hs hb => ?_)
    (fun s r hs hb => ?_) (List.forall_mem_nil _) hr op hop
  · rcases serveBody_cases s with ⟨-, hb'⟩ | ⟨pos, -, hb', -⟩ <;> rw [hb'] at hb <;> cases hb
    exact hall s hs _
  · rcases serveBody_cases s with ⟨-, hb'⟩ | ⟨pos, -, hb', -⟩ <;> rw [hb'] at hb <;> cases hb
    exact fun op hop => hall s hs none op (by
      rcases List.mem_append.mp hop with hop | hop
      · exact List.mem_append_left _ hop
      · exact List.mem_append_right _ (List.mem_cons.mpr (Or.inl (List.mem_singleton.mp hop))))

/-- The callbacks write heartbeats alone. -/
theorem written_heartbeats {own : Bytes} (h : Written ChatRoomHandler own) :
    ∃ beats, own = (List.replicate beats heartbeat).flatten := by
  induction h with
  | nothing => exact ⟨0, rfl⟩
  | @more own op h hop c ih =>
    obtain ⟨beats, rfl⟩ := ih
    have hnone : op.accepts c = [] → ∃ beats', (List.replicate beats heartbeat).flatten ++ op.accepts c =
        (List.replicate beats' heartbeat).flatten := fun hacc => ⟨beats, by rw [hacc, List.append_nil]⟩
    cases hop with
    | onOpen hop => cases hop
    | onTraffic hop =>
      rcases serve_ops hop with rfl | ⟨n, rfl⟩
      · exact hnone rfl
      · exact hnone rfl
    | onClose hop =>
      rw [List.mem_singleton.mp hop]
      exact ⟨beats, List.append_nil _⟩
    | onTick hop =>
      obtain ⟨_, -, heq⟩ := List.mem_map.mp hop
      cases heq
      cases hres : (c.writeBytes heartbeat).1 with
      | error e => exact hnone (by simp [Op.accepts, hres])
      | ok n =>
        refine ⟨beats + 1, ?_⟩
        rw [List.replicate_succ', List.flatten_append, List.flatten_singleton]
        simp [Op.accepts, hres]

theorem sends_to (g : Gfd) : SendsOnly ChatRoomHandler fun gfd _ => gfd ≠ g := by
  intro gfd cmd hop
  cases hop with
  | onOpen hop => cases hop
  | onTraffic hop => rcases serve_ops hop with heq | ⟨n, heq⟩ <;> cases heq
  | onClose hop => cases List.mem_singleton.mp hop
  | onTick hop =>
    obtain ⟨_, -, heq⟩ := List.mem_map.mp hop
    cases heq

end ChatRoomHandler

open ChatRoomHandler

abbrev ChatRoom := Relay ChatRoomHandler RawCodec Closure ChatRoomHandler

namespace ChatRoom

open EventLoop Runs Machine Relay

/-! ## Runs -/

variable {el : EventLoop ChatRoomHandler RawCodec} {s s' t : ChatRoom} {acts₀ acts : List (Relay.Act ChatRoomHandler)}
  {i j : Incarnation RawCodec} {k n : Nat}

/-- **A live connection is among the clients**, once. -/
theorem live_joined (hfresh : el.Fresh) (hn : el.handle.idx < n) (hidx : el.handle.idx = el.loopId.toNat) {pool : Bool}
    (hrun : run (Relay.step work) (Relay.start el pool (ChatRoomHandler.new n)) acts = some t)
    (hlive : t.machine.phase.Live) (hm : t.machine.el.minted ≤ 2 ^ 32) (hi : t.machine.el.connections.get k = some i) :
    t.shared.Sharded ∧ t.shared.Joined i.conn.gfd := by
  obtain ⟨hreaches, hshared⟩ := start_run hfresh hrun
  have hf := hreaches.facts hfresh
  obtain ⟨ls, hls⟩ := hreaches
  have hissued := hf.numbered.live hi
  rw [hshared]
  refine ⟨(sharded_new n).foldl _, joined_foldl _ ?_ (fun before after action hmem hg => ?_) (Or.inr ?_)⟩
  · obtain ⟨-, fd, key, hg⟩ := hf.numbered.issued _ hissued
    have hg : i.conn.gfd = .new i.id fd t.machine.el.loopId key := hg
    rw [hg, Gfd.eventLoopIndex_new, hf.loopId, ← hidx, ChatRoomHandler.new, List.length_replicate]
    exact hn
  · -- it would be a record of the connection itself
    have hbefore := hf.named _ hmem _ rfl
    exact run_notClosed hfresh hls hlive hi before after action hmem (hf.numbered.unique hm (hg ▸ hbefore) hissued)
  · obtain ⟨o, ho, hopens⟩ := List.mem_filterMap.mp hissued
    cases o with
    | opens before after action => exact ⟨before, after, action, ho, congrArg Prod.snd (Option.some.inj hopens)⟩
    | _ => cases hopens

/-- **The messages of the others arrive**, each once and in order. Between any two states of a run in which it lives, a
client gets what waited for it in the urgent queue and what was brought there, up to what waits now, merged with
heartbeats. What the worker brought there are the messages that were on the way and those that the others have submitted
since the pool was made, up to what is still on the way; other threads may have sent something in between. -/
theorem messages_arrive (hfresh : el.Fresh) (hn : el.handle.idx < n) (hidx : el.handle.idx = el.loopId.toNat)
    {pool : Bool} (hrun₀ : run (Relay.step work) (Relay.start el pool (ChatRoomHandler.new n)) acts₀ = some s)
    (hrun : run (Relay.step work) s acts = some s') (hlive : s'.machine.phase.Live)
    (hm : s'.machine.el.minted ≤ 2 ^ 32) (hi : s.machine.el.connections.get k = some i) (hk : k < 2 ^ 24)
    (hj : s'.machine.el.connections.get k = some j) (hid : j.id = i.id) :
    ∃ beats arrived brought told lost kept out, j.conn.outStream = i.conn.outStream ++ out ∧
      Merges (List.replicate beats heartbeat).flatten arrived out ∧
      arrived ++ s'.machine.el.handle.waitingFor i.conn.gfd = s.machine.el.handle.waitingFor i.conn.gfd ++ brought ∧
      Merges (acts.flatMap (Relay.Act.dataFor i.conn.gfd)) told brought ∧
      (s'.machine.el.trace.drop s.machine.el.trace.length).flatMap submitted = lost ++ kept ∧
      s'.dropped = s.dropped ++ lost ∧ (s.pool = true → lost = []) ∧
      told ++ s'.toSend i.conn.gfd (Closure.dataFor i.conn.gfd) =
        s.toSend i.conn.gfd (Closure.dataFor i.conn.gfd) ++ kept.flatMap (Closure.dataFor i.conn.gfd) := by
  obtain ⟨hreaches, -⟩ := start_run hfresh hrun₀
  have hf := hreaches.facts hfresh
  have hg : i.conn.gfd.eventLoopIndex = s.machine.el.handle.idx := by
    obtain ⟨-, fd, key, hg⟩ := hf.numbered.issued _ (hf.numbered.live hi)
    have hg : i.conn.gfd = .new i.id fd s.machine.el.loopId key := hg
    rw [hg, Gfd.eventLoopIndex_new, hf.loopId, hf.idx, hidx]
  -- every closure that runs on the way finds the client
  have htells : Along (Relay.step work) (Tells work i.conn.gfd (Closure.dataFor i.conn.gfd)) s acts := by
    refine Along.of_between fun acts₁ a acts₂ t hacts ht ps closure _ _ hps => ?_
    subst hacts
    obtain ⟨t', ht', hrest⟩ := exists_of_run_append hrun
    cases ht.symm.trans ht'
    obtain ⟨ls₁, hls₁⟩ := machine_run ht
    obtain ⟨ls₂, hls₂⟩ := machine_run hrest
    obtain ⟨hpath₁, hcalm, -⟩ := Machine.run_later hf.calm hls₁
    obtain ⟨hpath₂, -, hback⟩ := Machine.run_later hcalm hls₂
    obtain ⟨hnum, hgrows₁⟩ := numbered_of_evolves hpath₁ hf.numbered
    obtain ⟨-, hgrows₂⟩ := numbered_of_evolves hpath₂ hnum
    have hold : i.id < t.machine.el.minted := Nat.lt_of_lt_of_le (hf.numbered.sound.minted hi) hgrows₁.minted
    obtain ⟨i', hi', hsame'⟩ := old_of_evolves hpath₂ hnum hj (hid ▸ hold)
    have hid' : i'.id = i.id := hsame'.id.symm.trans hid
    obtain ⟨i₀, hi₀, hsame⟩ := old_of_evolves hpath₁ hf.numbered hi' (hid' ▸ hf.numbered.sound.minted hi)
    cases hi.symm.trans hi₀
    obtain ⟨hsharded, hjoined⟩ := live_joined hfresh hn hidx ((run_append hrun₀).trans ht) (hback hlive)
      (Nat.le_trans hgrows₂.minted hm) hi'
    exact sends_dataFor hsharded (hsame.gfd ▸ hjoined) hps
  obtain ⟨ls, told, lost, kept, hls, hmerges, hsplit, hdropped, hlost, htold⟩ := run_tells acts hf.calm hg htells hrun
  obtain ⟨ls₀, hls₀⟩ := hreaches
  obtain ⟨_, -, own, arrived, out, hout, hown, harrived, hwrote⟩ :=
    async_writes_arrive hfresh hls₀ hi hk (sends_to i.conn.gfd) hls hlive hj hid
  obtain ⟨beats, rfl⟩ := written_heartbeats hwrote.written
  exact ⟨beats, arrived, _, told, lost, kept, out, hout, hown, harrived, hmerges, hsplit, hdropped, hlost, htold⟩

def room : EventLoop ChatRoomHandler RawCodec := EventLoop.new 0 ⟨64, 8, false⟩ (.new 1) [] [] (fun _ => 0) 0

/-- Two clients come in before the pool is made. The first sends a line that is dropped. -/
def joins : List (Relay.Act ChatRoomHandler) :=
  [.loop (.accept ⟨4, [], [.data [100, 10], .wouldBlock, .data [97, 98, 10, 99, 10]], [], [], none⟩
      (.tcp "a") (.tcp "b")),
    .loop (.accept ⟨5, [.took 2], [], [], [], none⟩ (.tcp "a") (.tcp "c")), .loop .advance, .loop .advance,
    .loop (.poll []), .loop .advance, .loop .advance, .loop .advance, .loop .advance]

/-- Then it sends two lines at once. The first of them comes to the second client while the other one waits. -/
def chatting : List (Relay.Act ChatRoomHandler) :=
  [.loop (.tick false), .loop .advance, .loop (.poll [⟨0, true, false, false, false⟩]), .loop .advance,
    .makesPool .advance 0, .loop (.tick false), .loop .advance, .loop (.poll [⟨0, true, false, false, false⟩]),
    .loop .advance, .takes, .runs [(.new 1 5 0 1, [97, 98, 10])], .sends, .loop .advance, .loop (.tick false),
    .loop .advance, .loop (.poll []), .loop .advance]

theorem messages_arrive_chatting : ∃ s s' i j beats arrived brought told lost kept out,
    run (Relay.step work) (Relay.start room false (.new 1)) joins = some s ∧
    run (Relay.step work) s chatting = some s' ∧ s.machine.el.connections.get 1 = some i ∧
    s'.machine.el.connections.get 1 = some j ∧ j.conn.outStream = [97, 98, 10] ∧
    s'.toSend (.new 1 5 0 1) (Closure.dataFor (.new 1 5 0 1)) = [99, 10] ∧ s'.dropped = [⟨.new 0 4 0 0, [100, 10]⟩] ∧
    j.conn.outStream = i.conn.outStream ++ out ∧ Merges (List.replicate beats heartbeat).flatten arrived out ∧
    arrived ++ s'.machine.el.handle.waitingFor i.conn.gfd = s.machine.el.handle.waitingFor i.conn.gfd ++ brought ∧
    Merges (chatting.flatMap (Relay.Act.dataFor i.conn.gfd)) told brought ∧
    (s'.machine.el.trace.drop s.machine.el.trace.length).flatMap submitted = lost ++ kept ∧
    s'.dropped = s.dropped ++ lost ∧ (s.pool = true → lost = []) ∧
    told ++ s'.toSend i.conn.gfd (Closure.dataFor i.conn.gfd) =
      s.toSend i.conn.gfd (Closure.dataFor i.conn.gfd) ++ kept.flatMap (Closure.dataFor i.conn.gfd) := by
  have hend : (run (Relay.step work) (Relay.start room false (.new 1)) joins).any (fun s =>
      (run (Relay.step work) s chatting).any fun s' => (s.machine.el.connections.get 1).any fun i =>
        (s'.machine.el.connections.get 1).any fun j => decide (s'.machine.phase.Live ∧ s'.machine.el.minted ≤ 2 ^ 32 ∧
          j.id = i.id ∧ j.conn.outStream = [97, 98, 10] ∧
          s'.toSend (.new 1 5 0 1) (Closure.dataFor (.new 1 5 0 1)) = [99, 10] ∧
          s'.dropped = [⟨.new 0 4 0 0, [100, 10]⟩])) = true := by
    decide +kernel
  obtain ⟨s, hs, hend⟩ := exists_of_any hend
  obtain ⟨s', hs', hend⟩ := exists_of_any hend
  obtain ⟨i, hi, hend⟩ := exists_of_any hend
  obtain ⟨j, hj, hend⟩ := exists_of_any hend
  obtain ⟨hlive, hm, hid, hout, hsend, hdropped⟩ := of_decide_eq_true hend
  obtain ⟨beats, arrived, brought, told, lost, kept, out, h⟩ :=
    messages_arrive (new_fresh _ _ _ _ _ _ _) (by decide) rfl hs hs' hlive hm hi (by decide) hj hid
  exact ⟨s, s', i, j, beats, arrived, brought, told, lost, kept, out, hs, hs', hi, hj, hout, hsend, hdropped, h⟩

end ChatRoom

end Rnet
