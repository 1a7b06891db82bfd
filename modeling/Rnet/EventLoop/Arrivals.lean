import Rnet.EventLoop.Connections
import Rnet.EventLoop.LastOutput
import Rnet.EventLoop.Numbers
import Rnet.EventLoop.PendingOutput
import Rnet.Lib.Merges

/-!
# Asynchronous writes arrive

An `AsyncWrite` has high priority, so it always waits in the urgent queue, behind those that were sent before it. When
its turn comes, the loop appends its data to the output of the connection, if that is still there. So what a connection
gets from other threads is what they sent it, in the order in which they sent it; what is still missing waits in the
urgent queue (`step_arrives`, `async_writes_arrive`). The callbacks may write in between.
-/

namespace Rnet

open Programs Relation

variable {η κ Msg : Type}

/-! ## The data that waits -/

/-- The data that a command brings to the connection with descriptor `g`. -/
def Command.dataFor (g : Gfd) : Command → Bytes
  | .asyncWrite gfd data => if gfd = g then data else []
  | _ => []

theorem Command.dataFor_of_brings {g : Gfd} {cmd : Command} (h : cmd.Brings fun gfd _ => gfd ≠ g) :
    cmd.dataFor g = [] := by
  cases cmd with
  | asyncWrite gfd data => exact if_neg h
  | _ => rfl

/-- The data that another thread sends to the connection with descriptor `g`. -/
def Label.dataFor (g : Gfd) : Label η → Bytes
  | .trigger cmd => cmd.dataFor g
  | _ => []

/-- What brings data has high priority. -/
theorem Command.dataFor_of_low {g : Gfd} {cmd : Command} (h : cmd.priority = .low) : cmd.dataFor g = [] := by
  cases cmd with
  | asyncWrite gfd data => cases h
  | _ => rfl

namespace EventLoopHandle

variable {g : Gfd} {h h' : EventLoopHandle} {q : Queued}

/-- The data that waits for the connection with descriptor `g`. -/
def waitingFor (g : Gfd) (h : EventLoopHandle) : Bytes := h.urgent.flatMap fun q => q.cmd.dataFor g

/-- No data waits in the common queue. -/
def Clear (g : Gfd) (h : EventLoopHandle) : Prop := ∀ q ∈ h.common, q.cmd.dataFor g = []

/-- **A command goes behind what waits already.** -/
theorem trigger_waitingFor (h : EventLoopHandle) (priority : Prioity) (q : Queued)
    (hp : priority = .low → q.cmd.dataFor g = []) (hclear : h.Clear g) :
    (h.trigger priority q).2.waitingFor g = h.waitingFor g ++ q.cmd.dataFor g ∧ (h.trigger priority q).2.Clear g := by
  have hwake : ∀ h : EventLoopHandle, h.wake.2.urgent = h.urgent ∧ h.wake.2.common = h.common := fun h => by
    unfold wake
    split <;> exact ⟨rfl, rfl⟩
  have hqueues : (h.trigger priority q).2.urgent = (h.push priority q).urgent ∧
      (h.trigger priority q).2.common = (h.push priority q).common := by
    have hw := hwake (h.push priority q)
    unfold trigger
    split <;> rename_i heq <;> rw [heq] at hw <;> exact hw
  unfold waitingFor Clear
  rw [hqueues.1, hqueues.2]
  unfold push
  split
  · rename_i hspill
    have hq := hp (low_of_spills hspill)
    refine ⟨by rw [hq, List.append_nil], fun q' hq' => ?_⟩
    rcases List.mem_append.mp hq' with hq' | hq'
    · exact hclear q' hq'
    · rw [List.mem_singleton.mp hq', hq]
  · exact ⟨by simp, hclear⟩

/-- **The data that comes out** waited longest. -/
theorem takeCommand_waitingFor (hq : Machine.takeCommand h = some (q, h')) (hclear : h.Clear g) :
    h.waitingFor g = q.cmd.dataFor g ++ h'.waitingFor g ∧ h'.Clear g := by
  obtain ⟨-, -, -, -, ⟨hu, hc⟩ | ⟨hu, hu', hc⟩⟩ := Machine.takeCommand_some hq
  · refine ⟨by simp [waitingFor, hu], fun q' hq' => ?_⟩
    rw [hc] at hq'
    exact hclear q' hq'
  · refine ⟨?_, fun q' hq' => hclear q' (hc ▸ List.mem_cons_of_mem _ hq')⟩
    simp [waitingFor, hu, hu', hclear q (hc ▸ List.mem_cons_self)]

end EventLoopHandle

/-- **What brings nothing** changes nothing for those that wait. -/
theorem EventLoop.Fills.waitingFor {g : Gfd} {h h' : EventLoopHandle}
    (hf : EventLoop.Fills (fun q => q.cmd.dataFor g = []) h h') (hclear : h.Clear g) :
    h'.waitingFor g = h.waitingFor g ∧ h'.Clear g := by
  obtain ⟨us, cs, hu, hc, hq⟩ := hf
  refine ⟨?_, fun q hmem => ?_⟩
  · have hus : us.flatMap (fun q => q.cmd.dataFor g) = [] :=
      List.flatMap_eq_nil_iff.mpr fun q hmem => hq q (List.mem_append_left _ hmem)
    rw [EventLoopHandle.waitingFor, hu, List.flatMap_append, hus, List.append_nil]
    rfl
  · rw [hc] at hmem
    exact (List.mem_append.mp hmem).elim (hclear q) fun hmem => hq q (List.mem_append_right _ hmem)

/-! ## What happens to a connection -/

/-- The bytes that operations of callbacks wrote, one after the other. -/
inductive Written (η : Type) {κ Msg : Type} [Codec κ Msg] [EventHandler η κ Msg] : Bytes → Prop
  | nothing : Written η []
  | more {own : Bytes} {op : Op κ Msg} (h : Written η own) (hop : Performs η op) (c : Connection κ) :
      Written η (own ++ op.accepts c)

section

variable [Codec κ Msg] [EventHandler η κ Msg] {i j l : Incarnation κ} {c c' c'' : Connection κ} {g : Gfd}

/-- Callbacks have written to the connection. -/
def Adds (η : Type) {κ Msg : Type} [Codec κ Msg] [EventHandler η κ Msg] (c c' : Connection κ) : Prop :=
  ∃ own, c'.outStream = c.outStream ++ own ∧ Written η own

theorem Written.append {own own' : Bytes} (h : Written η own) (h' : Written η own') : Written η (own ++ own') := by
  induction h' with
  | nothing =>
    rw [List.append_nil]
    exact h
  | more h' hop c ih =>
    rw [← List.append_assoc]
    exact .more ih hop c

theorem Adds.of_eq (h : c'.outStream = c.outStream) : Adds η c c' := ⟨[], by rw [h, List.append_nil], .nothing⟩

theorem Adds.trans (h : Adds η c c') (h' : Adds η c' c'') : Adds η c c'' := by
  obtain ⟨own, ho, hs⟩ := h
  obtain ⟨own', ho', hs'⟩ := h'
  exact ⟨own ++ own', by rw [ho', ho, List.append_assoc], hs.append hs'⟩

theorem adds_performAll (ops : List (Op κ Msg)) (hops : ∀ op ∈ ops, Performs η op) :
    ∀ c : Connection κ, Adds η c (Op.performAll ops c) := by
  induction ops with
  | nil => exact fun c => .of_eq rfl
  | cons op ops ih =>
    intro c
    have hop : Adds η c (op.perform c).2 :=
      ⟨op.accepts c, Connection.perform_outStream op c, .more .nothing (hops op List.mem_cons_self) c⟩
    exact hop.trans (ih (fun o ho => hops o (List.mem_cons_of_mem _ ho)) _)

omit [Codec κ Msg] [EventHandler η κ Msg] in
/-- Reading writes nothing. -/
theorem outStream_answerRead {s s' : Socket} {a : ReadAnswer} {n : Nat} {res : IoResult Bytes} (hs : c.socket = some s)
    (ha : s.answerRead a n = (res, s')) : ({ c with socket := some s' } : Connection κ).outStream = c.outStream := by
  obtain rfl : (s.answerRead a n).2 = s' := congrArg Prod.snd ha
  cases a <;> simp [Connection.outStream, Connection.sent, Connection.queued, hs, Socket.answerRead]

/-- Without an `AsyncWrite`, nobody else writes. -/
theorem Happens.adds {obs : List (Obs κ)} (h : Happens η (fun _ _ => False) i obs j) :
    j.id = i.id ∧ Adds η i.conn j.conn := by
  cases h with
  | registers s interest hs =>
    exact ⟨rfl, .of_eq (by simp [Connection.outStream, Connection.sent, Connection.queued, hs])⟩
  | writes maxBatch => exact ⟨rfl, .of_eq (i.conn.processWrite_stream maxBatch)⟩
  | handed data n hW hok => exact hW.elim
  | readsNothing s a n hs ha => exact ⟨rfl, .of_eq (outStream_answerRead hs rfl)⟩
  | traffic handler hd s a n s' bs before after hs ha hne hset hbefore hact hafter =>
    have hreceived : Adds η i.conn before.conn := .of_eq (by rw [hbefore]; exact outStream_answerRead hs ha)
    have hconn : after.conn = Op.performAll (EventHandler.onTraffic handler before.conn).1.ops before.conn := by
      rw [hafter, Op.applyAll_conn]
    have hcallback : Adds η before.conn after.conn := hconn ▸ adds_performAll _ (fun _ => .onTraffic) before.conn
    have hcarry := after.conn.carryOver_carries
    have hcarried : Adds η after.conn after.conn.carryOver :=
      .of_eq (by simp [Connection.outStream, Connection.sent, Connection.queued, hcarry.socket, hcarry.outBuffer])
    have hid : after.id = i.id := by
      rw [hafter, (Op.applyAll_stable _ before hd).1, hbefore]
    exact ⟨hid, (hreceived.trans hcallback).trans hcarried⟩
  | ticks handler conns key op hd hop =>
    refine ⟨rfl, adds_performAll [op] (fun o ho => ?_) i.conn⟩
    rw [List.mem_singleton.mp ho]
    exact .onTick hop

/-- **From `i` to `l` the callbacks wrote `own`** to the connection, while the loop made the records `obs`: each
`on_traffic` that it recorded, and each operation of a tick, wrote some of it. An `AsyncWrite` may have come between. -/
inductive Wrote (η : Type) {κ Msg : Type} [Codec κ Msg] [EventHandler η κ Msg] :
    Incarnation κ → List (Obs κ) → Bytes → Incarnation κ → Prop
  | rests (i : Incarnation κ) : Wrote η i [] [] i
  | happens {i j l : Incarnation κ} {obs obs' : List (Obs κ)} {bs own : Bytes}
      (h : Happens η (fun _ _ => False) i obs j) (hout : j.conn.outStream = i.conn.outStream ++ bs)
      (hrest : Wrote η j obs' own l) : Wrote η i (obs ++ obs') (bs ++ own) l
  | handed {i l : Incarnation κ} {obs : List (Obs κ)} {own : Bytes} (data : Bytes)
      (hrest : Wrote η { i with conn := (i.conn.write data).2 } obs own l) : Wrote η i obs own l
  | others {i l : Incarnation κ} {obs obs' : List (Obs κ)} {own : Bytes} (ho : ∀ o ∈ obs, o.Elsewhere i.id)
      (hrest : Wrote η i obs' own l) : Wrote η i (obs ++ obs') own l

namespace Wrote

variable {obs obs' : List (Obs κ)} {own own' : Bytes}

theorem trans (h : Wrote η i obs own j) (h' : Wrote η j obs' own' l) : Wrote η i (obs ++ obs') (own ++ own') l := by
  induction h with
  | rests i => exact h'
  | happens h hout _ ih =>
    rw [List.append_assoc, List.append_assoc]
    exact .happens h hout (ih h')
  | handed data _ ih => exact .handed data (ih h')
  | others ho _ ih =>
    rw [List.append_assoc]
    exact .others ho (ih h')

/-- A registration writes nothing. -/
theorem registers {s : Socket} (hs : i.conn.socket = some s) (interest : Interest) :
    Wrote η i [] [] { i with conn := { i.conn with socket := some { s with interest := some interest } } } := by
  have hout : ({ i.conn with socket := some { s with interest := some interest } } : Connection κ).outStream =
      i.conn.outStream ++ [] := by
    simp [Connection.outStream, Connection.sent, Connection.queued, hs]
  exact .happens (.registers s interest hs) hout (.rests _)

theorem written (h : Wrote η i obs own l) : Written η own := by
  induction h with
  | rests i => exact .nothing
  | happens h hout _ ih =>
    obtain ⟨-, own, hown, hwritten⟩ := h.adds
    cases List.append_cancel_left (hown.symm.trans hout)
    exact hwritten.append ih
  | handed _ _ ih => exact ih
  | others _ _ ih => exact ih

end Wrote

/-- What the records since `trace` say of the output. -/
def Accounts (η : Type) {κ Msg : Type} [Codec κ Msg] [EventHandler η κ Msg] (i : Incarnation κ)
    (trace trace' : List (Obs κ)) (data : Bytes) (j : Incarnation κ) : Prop :=
  ∃ obs own, trace' = trace ++ obs ∧ Wrote η i obs own j ∧ j.conn.outStream = i.conn.outStream ++ (own ++ data)

theorem Accounts.refl (i : Incarnation κ) (trace : List (Obs κ)) : Accounts η i trace trace [] i :=
  ⟨[], [], (List.append_nil _).symm, .rests i, (List.append_nil _).symm⟩

theorem stays_accounts (i : Incarnation κ) (trace : List (Obs κ)) :
    Stays η (fun _ _ => False) fun trace' j => j.id = i.id → Accounts η i trace trace' [] j where
  others {trace' j obs} ho h hid := by
    obtain ⟨obs₀, own, ht, hwrote, hout⟩ := h hid
    have hothers : Wrote η j (obs ++ []) [] j := .others ho (.rests j)
    refine ⟨obs₀ ++ obs, own, by rw [ht, List.append_assoc], ?_, hout⟩
    simpa using hwrote.trans hothers
  happens {trace' j obs l} hl h hid := by
    obtain ⟨hsame, bs, hbs, -⟩ := hl.adds
    obtain ⟨obs₀, own, ht, hwrote, hout⟩ := h (hsame.symm.trans hid)
    have hnext : Wrote η j (obs ++ []) (bs ++ []) l := .happens hl hbs (.rests l)
    refine ⟨obs₀ ++ obs, own ++ bs, by rw [ht, List.append_assoc], ?_, ?_⟩
    · simpa using hwrote.trans hnext
    · rw [hbs, hout, List.append_nil, List.append_nil, List.append_assoc]

end

namespace EventLoop

variable [Codec κ Msg] [EventHandler η κ Msg] {el t : EventLoop η κ} {k : Nat} {i j : Incarnation κ}

/-- A connection that the loop did not make since was there already. -/
theorem Evolves.old (he : Evolves el t) (hj : t.connections.get k = some j) (hold : j.id < el.minted) :
    ∃ i, el.connections.get k = some i ∧ i.Same j := by
  cases he with
  | change hc =>
    rcases hc with ⟨key, he⟩ | hr
    · exact he.same k j hj
    · cases hr with
      | admits socket localAddr peerAddr hact =>
        rcases Slab.of_get_insert (s := el.connections) hj with ⟨-, rfl⟩ | hj
        · have hid : (el.opening socket localAddr peerAddr).1.id = el.minted :=
            (opening_same el socket localAddr peerAddr).id
          omega
        · exact ⟨j, hj, .refl j⟩
      | refuses socket localAddr peerAddr hact => exact ⟨j, hj, .refl j⟩
      | dropsRefused before after action hobs hact => exact ⟨j, hj, .refl j⟩
  | takes _ | gets _ _ | mints _ | drops _ => exact ⟨j, hj, .refl j⟩

theorem old_of_evolves (hp : ReflTransGen Evolves el t) (hn : el.Numbered) (hj : t.connections.get k = some j)
    (hold : j.id < el.minted) : ∃ i, el.connections.get k = some i ∧ i.Same j := by
  have hinv : (t.Numbered ∧ el.Grows t) ∧ ∀ k j, t.connections.get k = some j → j.id < el.minted →
      ∃ i, el.connections.get k = some i ∧ i.Same j := by
    refine invariant_of_steps (P := fun t => (t.Numbered ∧ el.Grows t) ∧ ∀ k j, t.connections.get k = some j →
      j.id < el.minted → ∃ i, el.connections.get k = some i ∧ i.Same j) hp ?_
      ⟨⟨hn, .refl el⟩, fun k j hj _ => ⟨j, hj, .refl j⟩⟩
    rintro u v he ⟨⟨hu, hgrows⟩, hget⟩
    refine ⟨⟨(he.numbered hu).1, hgrows.trans (he.numbered hu).2⟩, fun k j hj hlt => ?_⟩
    obtain ⟨i, hi, hij⟩ := he.old hj (Nat.lt_of_lt_of_le hlt hgrows.minted)
    obtain ⟨i₀, hi₀, h₀⟩ := hget k i hi (hij.id ▸ hlt)
    exact ⟨i₀, hi₀, h₀.trans hij⟩
  exact hinv.2 k j hj hold

/-- **An `AsyncWrite`** appends its data to the connection it is for, and to no other. -/
theorem asyncWrite_arrives (hs : el.Sound) (hi : el.connections.get k = some i) (hk : k < 2 ^ 24) {gfd : Gfd}
    {data : Bytes} (hrun : asyncWrite gfd data el = .ok ⟨⟩ t) (hj : t.connections.get k = some j) :
    j.conn.outStream = i.conn.outStream ++ (Command.asyncWrite gfd data).dataFor i.conn.gfd := by
  obtain ⟨s, hsock, hgfd⟩ := hs.gfd hi
  have hslab : i.conn.gfd.slabIndex = k := by
    rw [hgfd, Gfd.slabIndex_new]
    exact Nat.mod_eq_of_lt hk
  have hfinal : final (asyncWrite gfd data) el = t := final_of_ok hrun
  by_cases hg : gfd = i.conn.gfd
  · subst hg
    have hloop : i.conn.gfd.eventLoopIndex = el.loopId.toNat := by rw [hgfd, Gfd.eventLoopIndex_new]
    have hdelivers := @asyncWrite_delivers _ _ _ _ _ el _ data i hloop (hslab.symm ▸ hi) rfl (by rw [hsock]; rfl)
    rw [hfinal, hslab] at hdelivers
    have hdata : (Command.asyncWrite i.conn.gfd data).dataFor i.conn.gfd = data := if_pos rfl
    cases hdelivers with
    | appends hwrite hj' hsame hout =>
      cases hj.symm.trans hj'
      rw [hout, hdata]
    | closes hwrite he htrace hid hgone =>
      rw [hgone hrun] at hj
      cases hj
  · have hdata : (Command.asyncWrite gfd data).dataFor i.conn.gfd = [] := if_neg hg
    have hsame : t.connections.get k = el.connections.get k := by
      by_cases hkey : k = gfd.slabIndex
      · have hother : ∀ i', el.connections.get gfd.slabIndex = some i' → i'.conn.gfd ≠ gfd := by
          intro i' hi' hg'
          rw [← hkey, hi] at hi'
          cases hi'
          exact hg hg'.symm
        rw [asyncWrite_misses hother data] at hrun
        cases hrun
        rfl
      · rw [← hfinal]
        exact asyncWrite_frame hs.socketed hkey
    rw [hsame, hi] at hj
    cases hj
    rw [hdata, List.append_nil]

/-- The callbacks write nothing meanwhile. -/
theorem asyncWrite_wrote (hs : el.Sound) (hi : el.connections.get k = some i) {gfd : Gfd} {data : Bytes}
    (hrun : asyncWrite gfd data el = .ok ⟨⟩ t) (hj : t.connections.get k = some j) :
    ∃ obs, t.trace = el.trace ++ obs ∧ Wrote η i obs [] j := by
  by_cases hk : k = gfd.slabIndex
  · subst hk
    rcases asyncWrite_ok hrun with rfl | hnone | ⟨i', n, hi', -, -, hrun⟩
    · cases hi.symm.trans hj
      exact ⟨[], (List.append_nil _).symm, .rests i⟩
    · cases hnone.symm.trans hj
    · cases hi.symm.trans hi'
      have hget := get_setIncarnation_self hi { i with conn := (i.conn.write data).2 }
      rcases reregister_ok hrun with ⟨hnone, -⟩ | ⟨j', s, hj', hsock, rfl⟩
      · cases hget.symm.trans hnone
      · cases hget.symm.trans hj'
        cases (get_setIncarnation_self hget _).symm.trans hj
        exact ⟨[], (List.append_nil _).symm, .handed data (.registers hsock _)⟩
  · have hpath := (asyncWrite_leads gfd data el).ok hrun
    obtain ⟨obs, ht, hobs⟩ := elsewhere_of_effects hpath hs hk hi
    cases ((frame hpath hk).trans hi).symm.trans hj
    exact ⟨obs ++ [], by rw [ht, List.append_nil], .others hobs (.rests i)⟩

end EventLoop

namespace Machine

open EventLoop Runs

variable [Codec κ Msg] [EventHandler η κ Msg] {m m' : Machine η κ} {l : Label η} {k : Nat} {i j : Incarnation κ}

/-- **A task** that is no `AsyncWrite` writes nothing to a connection but what its callbacks do. -/
theorem Starts.accounts {task : Task} {el₀ t : EventLoop η κ} (hst : Starts m l task el₀) (hcalm : m.Calm)
    (hs : el₀.Sound) (hno : ∀ gfd data, task ≠ .command (.asyncWrite gfd data))
    (hrun : task.run el₀ = .ok ⟨⟩ t) (hi : el₀.connections.get k = some i) (hj : t.connections.get k = some j)
    (hid : j.id = i.id) : Accounts η i el₀.trace t.trace [] j := by
  have hset := hst.settled hcalm
  have hholds : el₀.Holds fun trace j => j.id = i.id → Accounts η i el₀.trace trace [] j := by
    intro k' i' hi' hid
    obtain rfl := hs.distinct hi' hi hid
    cases hi'.symm.trans hi
    exact .refl i _
  have hregister : ∀ {socket : Socket} {localAddr peerAddr : NetworkAddress},
      register socket localAddr peerAddr el₀ = .ok ⟨⟩ t → Accounts η i el₀.trace t.trace [] j := by
    intro socket localAddr peerAddr hrun
    have hvac : k ≠ el₀.connections.vacantKey := by
      rintro rfl
      rw [Slab.get_vacantKey] at hi
      cases hi
    rw [register_frame hrun hvac, hi] at hj
    cases hj
    obtain ⟨obs, ht, hobs⟩ := register_elsewhere hs hrun
    exact ⟨obs ++ [], [], by rw [ht, List.append_nil], .others (hobs k i hi) (.rests i), (List.append_nil _).symm⟩
  cases hst with
  | @command left evs q h hphase hq hcmd =>
    have hbrings : q.cmd.Brings fun _ _ => False := by
      cases hc : q.cmd with
      | asyncWrite gfd data => exact hno gfd data (by rw [hc])
      | _ => trivial
    exact handleCommand_holds (stays_accounts i _) hs hset hcmd hbrings hholds hrun k j hj hid
  | io hphase _ _ =>
    have hpath := (processIo_leads _ (hset _)).ok hrun
    exact holds_of_effects (stays_accounts i _) hs hholds hpath
      (processIo_holds (stays_accounts i _) _ (hset _) (hholds _) hrun) k j hj hid
  | ordered _ _ _ | accepted _ _ => exact hregister hrun
  | first _ _ | tick _ _ =>
    obtain ⟨delay, u, hu, hrun⟩ := bind_ok.mp hrun
    cases hrun
    exact onTick_holds (stays_accounts i _) hholds hu k j hj hid

/-! ## Steps and runs -/

omit [Codec κ Msg] [EventHandler η κ Msg] in
/-- What a task takes out of the queues. -/
theorem Starts.waitingFor {g : Gfd} {task : Task} {el₀ : EventLoop η κ} (hst : Starts m l task el₀)
    (hclear : m.el.handle.Clear g) : ∃ data, m.el.handle.waitingFor g = data ++ el₀.handle.waitingFor g ∧
      el₀.handle.Clear g ∧ ((∃ gfd bs, task = .command (.asyncWrite gfd bs) ∧
        data = (Command.asyncWrite gfd bs).dataFor g) ∨
          (∀ gfd bs, task ≠ .command (.asyncWrite gfd bs)) ∧ data = []) := by
  cases hst with
  | @command left evs q h hphase hq hcmd =>
    obtain ⟨hwait, hclear'⟩ := EventLoopHandle.takeCommand_waitingFor hq hclear
    refine ⟨q.cmd.dataFor g, hwait, hclear', ?_⟩
    cases hc : q.cmd with
    | asyncWrite gfd bs => exact Or.inl ⟨gfd, bs, rfl, rfl⟩
    | _ => exact Or.inr ⟨fun _ _ heq => (by cases heq), rfl⟩
  | @ordered left evs socket localAddr peerAddr q h hphase hreg hq =>
    obtain ⟨hwait, hclear'⟩ := EventLoopHandle.takeCommand_waitingFor hq hclear
    obtain ⟨cmd, origin⟩ := q
    refine ⟨[], ?_, hclear', Or.inr ⟨fun _ _ heq => (by cases heq), rfl⟩⟩
    simp only [registration, hphase, hq] at hreg
    cases cmd <;> cases hreg
    exact hwait
  | io _ _ _ | accepted _ _ | first _ _ | tick _ _ =>
    exact ⟨[], rfl, hclear, Or.inr ⟨fun _ _ heq => (by cases heq), rfl⟩⟩

omit [Codec κ Msg] in
theorem admits_dataFor {g : Gfd} (h : SendsOnly η fun gfd _ => gfd ≠ g) :
    Admits η fun q => q.cmd.dataFor g = [] where
  loop q ho ha := Command.dataFor_of_brings (h.admits.loop q ho ha)
  sends idx g' q hs := Command.dataFor_of_brings (h.admits.sends idx g' q hs)

/-- **What a step takes out of the urgent queue for a connection** goes to its output, after what the callbacks of the
step wrote. -/
theorem step_arrives {g : Gfd} (hsends : SendsOnly η fun gfd _ => gfd ≠ g) (hstep : step m l = some m') (hcalm : m.Calm)
    (hs : m.el.Sound) (hclear : m.el.handle.Clear g) (hlive : m'.phase.Live) :
    m'.el.handle.Clear g ∧ ∃ data, data ++ m'.el.handle.waitingFor g = m.el.handle.waitingFor g ++ l.dataFor g ∧
      ∀ k i j, m.el.connections.get k = some i → i.conn.gfd = g → k < 2 ^ 24 → m'.el.connections.get k = some j →
        j.id = i.id → Accounts η i m.el.trace m'.el.trace data j := by
  have hidle : ∀ {u : EventLoop η κ}, u.connections = m.el.connections → u.trace = m.el.trace → ∀ k i j,
      m.el.connections.get k = some i → i.conn.gfd = g → k < 2 ^ 24 → u.connections.get k = some j → j.id = i.id →
        Accounts η i m.el.trace u.trace [] j := by
    intro u hu ht k i j hi _ _ hj _
    rw [hu, hi] at hj
    cases hj
    rw [ht]
    exact .refl i _
  by_cases htrigger : ∃ cmd, l = .trigger cmd
  · obtain ⟨cmd, rfl⟩ := htrigger
    cases hstep
    obtain ⟨hwait, hclear'⟩ := EventLoopHandle.trigger_waitingFor m.el.handle cmd.priority ⟨cmd, none⟩
      (fun hp => Command.dataFor_of_low hp) hclear
    exact ⟨hclear', [], hwait, hidle rfl rfl⟩
  · have hdata : l.dataFor g = [] := by
      cases l with
      | trigger cmd => exact absurd ⟨cmd, rfl⟩ htrigger
      | _ => rfl
    rw [hdata, List.append_nil]
    cases step_moves hstep with
    | idles hel _ =>
      obtain ⟨hwait, hclear'⟩ := Fills.waitingFor (.of_eq hel.urgent hel.common) hclear
      exact ⟨hclear', [], hwait, hidle hel.connections hel.trace⟩
    | pollFails _ | drops _ | ends _ _ _ _ _ => exact hlive.elim
    | gets priority cmd hcmd =>
      have hcmd : cmd.dataFor g = [] := by
        rcases hcmd with rfl | ⟨socket, localAddr, peerAddr, -, rfl⟩
        · exact hdata
        · rfl
      obtain ⟨hwait, hclear'⟩ :=
        EventLoopHandle.trigger_waitingFor m.el.handle priority ⟨cmd, none⟩ (fun _ => hcmd) hclear
      rw [hcmd, List.append_nil] at hwait
      exact ⟨hclear', [], hwait, hidle rfl rfl⟩
    | mints n => exact ⟨hclear, [], rfl, hidle rfl rfl⟩
    | @works _ task el₀ t el' phase nextTick hst hrun hel _ =>
      obtain ⟨data, hwait, hclear₀, htask⟩ := hst.waitingFor hclear
      have hpath := (Task.changes task (hst.settled hcalm)).ok hrun
      have hfills : Fills (fun q => q.cmd.dataFor g = []) el₀.handle el'.handle :=
        (fills_of_changes (admits_dataFor hsends) hpath).trans (.of_eq hel.urgent hel.common)
      obtain ⟨hwait', hclear'⟩ := hfills.waitingFor hclear₀
      refine ⟨hclear', data, by rw [hwait', hwait], fun k i j hi hg hk hj hid => ?_⟩
      obtain ⟨hi₀, hs₀, ht₀⟩ : el₀.connections.get k = some i ∧ el₀.Sound ∧ el₀.trace = m.el.trace := by
        obtain ⟨h', rfl, -⟩ := hst.withHandle
        exact ⟨hi, hs.keeps (.of_eq rfl) (Nat.le_refl _) rfl, rfl⟩
      have hj : t.connections.get k = some j := hel.connections ▸ hj
      rw [hel.trace, ← ht₀]
      rcases htask with ⟨gfd, bs, rfl, rfl⟩ | ⟨hno, rfl⟩
      · obtain ⟨obs, ht, hwrote⟩ := asyncWrite_wrote hs₀ hi₀ hrun hj
        refine ⟨obs, [], ht, hwrote, ?_⟩
        rw [List.nil_append, ← hg]
        exact asyncWrite_arrives hs₀ hi₀ hk hrun hj
      · exact hst.accounts hcalm hs₀ hno hrun hi₀ hj hid

/-- `i` became `j` while the loop made the records `obs`: `waited` waited for it in the urgent queue and `brought` was
sent to it; `arrived` is what came out of the queue, `own` is what the callbacks wrote, and `waits` waits now. -/
def Arrived (η : Type) {κ Msg : Type} [Codec κ Msg] [EventHandler η κ Msg] (i : Incarnation κ) (obs : List (Obs κ))
    (j : Incarnation κ) (waited brought waits : Bytes) : Prop :=
  ∃ own arrived out, j.conn.outStream = i.conn.outStream ++ out ∧ Merges own arrived out ∧
    arrived ++ waits = waited ++ brought ∧ Wrote η i obs own j

theorem Arrived.trans {n : Incarnation κ} {obs obs' : List (Obs κ)} {waited brought waits brought' waits' : Bytes}
    (h : Arrived η i obs j waited brought waits) (h' : Arrived η j obs' n waits brought' waits') :
    Arrived η i (obs ++ obs') n waited (brought ++ brought') waits' := by
  obtain ⟨own, arrived, out, hout, hmerges, harrived, hwrote⟩ := h
  obtain ⟨own', arrived', out', hout', hmerges', harrived', hwrote'⟩ := h'
  refine ⟨own ++ own', arrived ++ arrived', out ++ out', ?_, hmerges.append hmerges', ?_, hwrote.trans hwrote'⟩
  · rw [hout', hout, List.append_assoc]
  · rw [List.append_assoc, harrived', ← List.append_assoc, harrived, List.append_assoc]

/-- What a run changes, and that a loop that runs was running. -/
theorem run_later {ls : List (Label η)} (hcalm : m.Calm) (hrun : run step m ls = some m') :
    ReflTransGen Evolves m.el m'.el ∧ m'.Calm ∧ (m'.phase.Live → m.phase.Live) :=
  run_invariant' (P := fun t : Machine η κ => ReflTransGen Evolves m.el t.el ∧ t.Calm ∧ (t.phase.Live → m.phase.Live))
    (fun _ _ _ hs hstep => ⟨hs.1.trans ((step_moves hstep).evolves hs.2.1), (step_moves hstep).calm hs.2.1, fun hlive =>
      hs.2.2 ((step_moves hstep).live hlive)⟩) ⟨.refl, hcalm, id⟩ hrun

/-- **Data that was sent to a connection arrives**, once and in order, as long as the connection lives: what came out of
the queue since then is what waited and was sent, up to what still waits. -/
theorem run_arrives {g : Gfd} (hsends : SendsOnly η fun gfd _ => gfd ≠ g) (hk : k < 2 ^ 24) (ls : List (Label η)) :
    ∀ {m : Machine η κ} {i : Incarnation κ}, m.Calm → m.el.Numbered → m.el.handle.Clear g →
      m.el.connections.get k = some i → i.conn.gfd = g → run step m ls = some m' → m'.phase.Live →
        m'.el.connections.get k = some j → j.id = i.id → ∃ obs, m'.el.trace = m.el.trace ++ obs ∧
          Arrived η i obs j (m.el.handle.waitingFor g) (ls.flatMap (Label.dataFor g)) (m'.el.handle.waitingFor g) := by
  induction ls with
  | nil =>
    intro m i hcalm hn hclear hi hg hrun hlive hj hid
    cases hrun
    rw [hi] at hj
    cases hj
    exact ⟨[], (List.append_nil _).symm, [], [], [], by simp, .nil, by simp, .rests _⟩
  | cons l ls ih =>
    intro m i hcalm hn hclear hi hg hrun hlive hj hid
    obtain ⟨m₁, hstep, hrun⟩ := run_cons.mp hrun
    have hmoves := step_moves hstep
    have hcalm₁ := hmoves.calm hcalm
    obtain ⟨hn₁, hgrows⟩ := numbered_of_evolves (hmoves.evolves hcalm) hn
    have hlater := run_later hcalm₁ hrun
    have hlive₁ := hlater.2.2 hlive
    have hlt : j.id < m₁.el.minted := by
      rw [hid]
      exact Nat.lt_of_lt_of_le (hn.sound.minted hi) hgrows.minted
    obtain ⟨i₁, hi₁, hsame⟩ := old_of_evolves hlater.1 hn₁ hj hlt
    have hid₁ : i₁.id = i.id := hsame.id.symm.trans hid
    obtain ⟨i₀, hi₀, hsame₀⟩ := old_of_evolves (hmoves.evolves hcalm) hn hi₁ (hid₁ ▸ hn.sound.minted hi)
    cases hi.symm.trans hi₀
    obtain ⟨hclear₁, data, hdata, hout⟩ := step_arrives hsends hstep hcalm hn.sound hclear hlive₁
    obtain ⟨obs, own, ht, hwrote, hown⟩ := hout k i i₁ hi hg hk hi₁ hid₁
    have hfirst : Arrived η i obs i₁ (m.el.handle.waitingFor g) (l.dataFor g) (m₁.el.handle.waitingFor g) :=
      ⟨own, data, own ++ data, hown, by simpa using (Merges.left_only own).append (.right_only data), hdata, hwrote⟩
    obtain ⟨obs', ht', hrest⟩ := ih hcalm₁ hn₁ hclear₁ hi₁ (hsame₀.gfd.trans hg) hrun hlive hj hsame.id
    exact ⟨obs ++ obs', by rw [ht', ht, List.append_assoc], hfirst.trans hrest⟩

/-- As long as the loop runs, no data waits in the common queue. -/
theorem run_clear {g : Gfd} (hsends : SendsOnly η fun gfd _ => gfd ≠ g) {el : EventLoop η κ} (hfresh : el.Fresh)
    {ls : List (Label η)} (hrun : run step (initial el) ls = some m) (hlive : m.phase.Live) :
    m.el.Numbered ∧ m.el.handle.Clear g := by
  have hinv := run_invariant' (P := fun m : Machine η κ => m.Calm ∧ m.el.Numbered ∧
    (m.phase.Live → m.el.handle.Clear g)) ?_ ?_ hrun
  · exact ⟨hinv.2.1, hinv.2.2 hlive⟩
  · rintro m l m' ⟨hcalm, hn, hclear⟩ hstep
    have hmoves := step_moves hstep
    exact ⟨hmoves.calm hcalm, (numbered_of_evolves (hmoves.evolves hcalm) hn).1, fun hlive' =>
      (step_arrives hsends hstep hcalm hn.sound (hclear (hmoves.live hlive')) hlive').1⟩
  · refine ⟨initial_calm hfresh, hfresh.numbered, fun _ q hq => ?_⟩
    simp [initial, hfresh.common] at hq

/-- **Asynchronous writes arrive**, once and in order. Between any two states of a run in which it lives, a connection
gets what waited for it and what other threads sent it, up to what waits now; in between there is what the callbacks
wrote to it, by the records that the loop made since. -/
theorem async_writes_arrive {el : EventLoop η κ} (hfresh : el.Fresh) {ls : List (Label η)}
    (hrun : run step (initial el) ls = some m) (hi : m.el.connections.get k = some i) (hk : k < 2 ^ 24)
    (hsends : SendsOnly η fun gfd _ => gfd ≠ i.conn.gfd) {ls' : List (Label η)} (hlater : run step m ls' = some m')
    (hlive : m'.phase.Live) (hj : m'.el.connections.get k = some j) (hid : j.id = i.id) :
    ∃ obs, m'.el.trace = m.el.trace ++ obs ∧ Arrived η i obs j (m.el.handle.waitingFor i.conn.gfd)
      (ls'.flatMap (Label.dataFor i.conn.gfd)) (m'.el.handle.waitingFor i.conn.gfd) := by
  have hcalm := (run_path hfresh hrun).2
  obtain ⟨hn, hclear⟩ := run_clear hsends hfresh hrun ((run_later hcalm hlater).2.2 hlive)
  exact run_arrives hsends hk ls' hcalm hn hclear hi rfl hlater hlive hj hid

/-- Two writes from another thread, of which the loop handles the first. -/
def twoWrites : List (Label Greeter) :=
  [.trigger (.asyncWrite (.new 0 4 0 0) [1, 2]), .trigger (.asyncWrite (.new 0 4 0 0) [3]), .advance]

/-- The greeting stands before the first write, and the second still waits. -/
theorem async_writes_arrive_two : ∃ m m' i j obs,
    run step (initial (greeterLoop .greets)) ((greetings []).take 5) = some m ∧ m.el.connections.get 0 = some i ∧
    run step m twoWrites = some m' ∧ m'.el.connections.get 0 = some j ∧ j.conn.outStream = [104, 105, 1, 2] ∧
    m'.el.trace = m.el.trace ++ obs ∧ Arrived Greeter i obs j [] [1, 2, 3] [3] := by
  have hend : (run step (initial (greeterLoop .greets)) ((greetings []).take 5)).any (fun m =>
      (run step m twoWrites).any fun m' => (m.el.connections.get 0).any fun i => (m'.el.connections.get 0).any fun j =>
        decide (i.conn.gfd = .new 0 4 0 0 ∧ j.id = i.id ∧ m'.phase.Live ∧ j.conn.outStream = [104, 105, 1, 2] ∧
          m.el.handle.waitingFor (.new 0 4 0 0) = [] ∧ m'.el.handle.waitingFor (.new 0 4 0 0) = [3])) = true := by
    decide +kernel
  obtain ⟨m, hm, hend⟩ := exists_of_any hend
  obtain ⟨m', hm', hend⟩ := exists_of_any hend
  obtain ⟨i, hi, hend⟩ := exists_of_any hend
  obtain ⟨j, hj, hend⟩ := exists_of_any hend
  obtain ⟨hg, hid, hlive, hout, hwaited, hwaits⟩ := of_decide_eq_true hend
  have hsends : SendsOnly Greeter fun gfd _ => gfd ≠ i.conn.gfd := by
    intro gfd cmd hperforms
    cases hperforms with
    | @onOpen h c _ hop => cases h <;> simp [EventHandler.onOpen] at hop
    | onTraffic hop | onClose hop | onTick hop => cases hop
  obtain ⟨obs, htrace, harrived⟩ :=
    async_writes_arrive (new_fresh _ _ _ _ _ _ _) hm hi (by decide) hsends hm' hlive hj hid
  rw [hg, hwaited, hwaits] at harrived
  exact ⟨m, m', i, j, obs, hm, hi, hm', hj, hout, htrace, harrived⟩

end Machine
end Rnet
