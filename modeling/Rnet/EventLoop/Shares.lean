import Rnet.Options
import Rnet.EventLoop.Lifecycle

/-!
# A connection's share of an iteration

`Iteration` remembers how much had been read from each connection when the last poll returned. One read pass reads
less than a batch and a buffer (`ReadsAll.bytes`), all else reads nothing (`Task.unread`). A pass that has had its
batch asks for another `Read`, which goes into the urgent queue; if the queues are drained later in the same
iteration, the pass is repeated there. So the bound holds in an iteration in which no connection is read twice
(`share_bounded`).
-/

namespace Rnet

open Programs Relation EventLoop

variable {η κ Msg : Type} [Codec κ Msg] [EventHandler η κ Msg] {el t u v : EventLoop η κ} {task : Task} {key num : Nat}

/-! ## What a task reads -/

namespace EventLoop

omit [Codec κ Msg] [EventHandler η κ Msg] in
theorem records_unread (h : el.Records Obs.Parting t) (num : Nat) : t.bytesRead num = el.bytesRead num :=
  bytesRead_of_records (h.mono fun obs hobs => by cases obs <;> first | exact hobs.elim | rfl)

/-- What comes after the read pass of `read_socket` closes and drops at most. -/
theorem readSocket_rest {status : IoStatus} (h : processRead key el = .ok status v) :
    v.Records Obs.Parting (final (readSocket key) el) := by
  have hrest : ∀ m : LoopM η κ Unit, readSocket key el = m v → Tells Obs.Parting (fun _ => False) m v →
      v.Records Obs.Parting (final (readSocket key) el) := fun _ heq hm => final_congr heq ▸ hm.final
  have hread : readSocket key el = (processRead key >>= _ : LoopM η κ Unit) el := rfl
  rw [bind_apply, h] at hread
  cases status with
  | closed graceful =>
    exact hrest (closeConnection key graceful) hread (closeConnection_tells (fun _ => id) key graceful v)
  | «yield» => exact hrest (trigger (.read key)) hread (trigger_tells _ v)
  | completed => exact hrest (pure ()) hread (.pure _)
  | shutdown =>
    obtain ⟨w, hw⟩ := shutdown_ok v
    have hthrow : readSocket key el = .error .eventLoopShutdown w := by
      rw [hread]
      show (shutdown >>= fun _ => (throw .eventLoopShutdown : LoopM η κ Unit)) v = _
      rw [bind_apply, hw]
      rfl
    exact final_of_error hthrow ▸ shutdown_records hw

/-- **A read pass** reads less than a batch and a buffer from its connection, and nothing from others. -/
theorem processRead_share {status : IoStatus} (h : processRead key el = .ok status v) (num : Nat) :
    v.bytesRead num = el.bytesRead num ∨
      ∃ i, el.connections.get key = some i ∧ i.conn.closed = false ∧ i.id = num ∧ (0 < el.options.maxBatchSize →
        v.bytesRead num < el.bytesRead num + (el.options.maxBatchSize + el.offered)) := by
  obtain ⟨-, new, hnew, hall⟩ := processRead_records h
  rw [bytesRead_append hnew]
  rcases hall with ⟨-, rfl⟩ | ⟨i, hi, hall⟩
  · exact Or.inl rfl
  · cases hc : i.conn.closed with
    | true =>
      unfold processRead at h
      rw [Programs.get_bind, hi] at h
      simp only [hc, if_true] at h
      cases h
      rw [List.self_eq_append_right.mp hnew]
      exact Or.inl rfl
    | false =>
      obtain ⟨-, hbound, hothers⟩ := hall.bytes
      by_cases hid : i.id = num
      · subst hid
        refine Or.inr ⟨i, hi, hc, rfl, fun hpos => Nat.add_lt_add_left ?_ _⟩
        have hlt := hbound (Nat.lt_of_lt_of_le hpos (Nat.le_add_right _ _))
        rwa [Nat.zero_add] at hlt
      · have hzero : (new.map (Obs.bytesRead num)).sum = 0 := by
          rw [List.map_congr_left (hothers num (Ne.symm hid))]
          simp
        exact Or.inl (by rw [hzero, Nat.add_zero])

end EventLoop

/-- A task that starts a read pass: what is read is read in the pass. -/
theorem Task.ReadsAt.share (h : task.ReadsAt el key u) (hs : el.Socketed) (hset : ∀ k, el.SettledAt k) (num : Nat) :
    ReflTransGen AnyEffect el u ∧ u.bytesRead num = el.bytesRead num ∧ ∃ status v, processRead key u = .ok status v ∧
      (final task.run el).bytesRead num = v.bytesRead num := by
  cases h with
  | read key =>
    obtain ⟨status, v, hv, -⟩ := processRead_ok hs (hset key)
    exact ⟨.refl, rfl, status, v, hv, records_unread (readSocket_rest hv) num⟩
  | @io key ev t hup hev hwrite =>
    have hsame : ReflTransGen AnyEffect el u ∧ u.bytesRead num = el.bytesRead num ∧ u.SettledAt key := by
      by_cases hw : (ev.error || ev.writable) = true
      · rw [if_pos hw] at hwrite
        have hrec := (writeSocket_tells (C := fun _ => False) (fun _ => id) key el).ok hwrite
        exact ⟨effects_any ((writeSocket_leads key el).ok hwrite), records_unread hrec num,
          writeSocket_settled (hset key) hwrite⟩
      · rw [if_neg hw] at hwrite
        cases hwrite
        exact ⟨.refl, rfl, hset key⟩
    obtain ⟨hpath, hb, hset'⟩ := hsame
    obtain ⟨status, v, hv, -⟩ := processRead_ok (hs.keeps (keeps_of_effects hpath)) hset'
    have hrun : (Task.io key ev).run el = (readSocket key >>= fun _ => reregister key : LoopM η κ Unit) u := by
      show processIo key ev el = _
      unfold processIo
      rw [if_neg (by simp [hup])]
      dsimp only
      split
      · rename_i hw
        rw [if_pos hw] at hwrite
        rw [bind_apply, hwrite]
      · rename_i hw
        rw [if_neg hw] at hwrite
        cases hwrite
        rfl
    refine ⟨hpath, hb, status, v, hv, ?_⟩
    have hrest := readSocket_rest hv
    have hfinal : final (Task.io key ev).run el =
        final (readSocket key >>= fun _ => reregister key : LoopM η κ Unit) u := final_congr hrun
    rw [hfinal]
    cases hr : readSocket key u with
    | ok a w =>
      rw [final_of_ok hr] at hrest
      have hcont : final (readSocket key >>= fun _ => reregister key : LoopM η κ Unit) u = final (reregister key) w :=
        final_congr (by rw [bind_apply, hr])
      rw [hcont]
      exact records_unread (hrest.trans (reregister_tells key w).final) num
    | error e w =>
      rw [final_of_error hr] at hrest
      have hstop : final (readSocket key >>= fun _ => reregister key : LoopM η κ Unit) u = w :=
        final_of_error (by rw [bind_apply, hr])
      rw [hstop]
      exact records_unread hrest num

/-- What may be recorded by a task that reads nothing. -/
theorem unread_allowed (num : Nat) : Allowed fun obs : Obs κ => obs.bytesRead num = 0 where
  parting obs h := by cases obs <;> first | exact h.elim | rfl
  opens _ _ _ _ := rfl
  ticks _ _ _ _ := rfl

/-- **A task that starts no read pass reads nothing.** -/
theorem Task.unread (hs : el.Socketed) (hset : ∀ k, el.SettledAt k) (hno : ∀ key u, ¬task.ReadsAt el key u)
    (num : Nat) :
    (final task.run el).bytesRead num = el.bytesRead num := by
  have htells := Task.tells (unread_allowed num) hs hset fun key u h => absurd h (hno key u)
  have hshut : ∀ t, task.ShutsTo el t → el.Records (fun obs => obs.bytesRead num = 0) t := by
    rintro t ⟨u, v, hu, hv, ht⟩
    have hbefore : el.Records (fun obs => obs.bytesRead num = 0) u := by
      cases hu with
      | command => exact .refl el
      | read h => exact absurd (.read _) (hno _ _)
      | io hup hev hwrite h => exact absurd (.io _ hup hev hwrite) (hno _ _)
      | register htask hpoll hact => exact .one rfl rfl rfl
      | tick hact => exact ticked_records rfl
    have hafter : u.Records (fun obs => obs.bytesRead num = 0) v :=
      (shutdown_records hv).mono (unread_allowed num).parting
    rcases ht with rfl | ⟨id, rfl⟩
    · exact hbefore.trans hafter
    · exact (hbefore.trans hafter).trans (.one rfl rfl rfl)
  have hrec : el.Records (fun obs => obs.bytesRead num = 0) (final task.run el) := by
    cases hr : task.run el with
    | ok a t => exact final_of_ok hr ▸ htells.ok hr
    | error e t => exact final_of_error hr ▸ (htells.error hr).elim id (hshut t)
  exact bytesRead_of_records hrec

/-! ## Iterations -/

namespace EventLoop

omit [Codec κ Msg] [EventHandler η κ Msg] in
theorem fits_congr (ho : t.options = el.options) (hb : t.ioBuffer = el.ioBuffer) :
    t.options = el.options ∧ (el.Fits → t.Fits) := by
  refine ⟨ho, fun h => ?_⟩
  rw [Fits, hb, ho]
  exact h

/-- The options stay, and the buffer never gets longer than they say. -/
theorem Effect.fits {serving : Prop} (h : Effect serving key el t) : t.options = el.options ∧ (el.Fits → t.Fits) := by
  cases h with
  | neutral h => exact ⟨h.options, h.fits⟩
  | ticks op hd conns hop _ =>
    unfold tickOp
    split <;> exact fits_congr rfl rfl
  | traffic i s a n s' bs _ _ _ _ _ _ =>
    have ho : (el.hears key i s' bs).2.options = el.options := rfl
    have hb : (el.hears key i s' bs).2.ioBuffer = el.ioBuffer := rfl
    generalize el.hears key i s' bs = r at ho hb ⊢
    exact fits_congr ho hb
  | _ => exact fits_congr rfl rfl

theorem Evolves.fits (h : Evolves el t) : t.options = el.options ∧ (el.Fits → t.Fits) := by
  cases h with
  | change hc =>
    rcases hc with ⟨key, he⟩ | hr
    · exact he.fits
    · cases hr <;> exact fits_congr rfl rfl
  | _ => exact fits_congr rfl rfl

end EventLoop

/-- A loop, and how much it had read from each connection when the last poll returned. -/
structure Iteration (η κ : Type) where
  machine : Machine η κ
  mark : Nat → Nat

namespace Iteration

open Runs

variable {w w' : Iteration η κ} {l : Label η} {ls : List (Label η)}

omit [Codec κ Msg] [EventHandler η κ Msg] in
/-- What has been read from a connection in this iteration. -/
def read (w : Iteration η κ) (num : Nat) : Nat := w.machine.el.bytesRead num - w.mark num

def step (w : Iteration η κ) (l : Label η) : Option (Iteration η κ) :=
  (w.machine.step l).map fun m =>
    ⟨m, match l with
      | .poll _ => w.machine.el.bytesRead
      | _ => w.mark⟩

/-- A loop before its first iteration. -/
def start (el : EventLoop η κ) : Iteration η κ := ⟨Machine.initial el, fun _ => 0⟩

/-- **No connection is read twice**: when a read pass starts on an open connection, nothing has been read from it in
this iteration. -/
def FirstPass (w : Iteration η κ) (l : Label η) : Prop :=
  ∀ task el₀ key u i, Machine.Starts w.machine l task el₀ → task.ReadsAt el₀ key u →
    u.connections.get key = some i → i.conn.closed = false → w.machine.el.bytesRead i.id = w.mark i.id

/-- The invariant: the bound holds in the current iteration. -/
structure Bounded (opts : Options) (w : Iteration η κ) : Prop where
  calm : w.machine.Calm
  sound : w.machine.el.Sound
  fits : w.machine.el.Fits
  options : w.machine.el.options = opts
  low : ∀ num, w.mark num ≤ w.machine.el.bytesRead num
  high : ∀ num, w.machine.el.bytesRead num < w.mark num + (opts.maxBatchSize + opts.readBufferCap)

/-- **A task in an iteration**: what it reads from a connection is the first that is read from it, less than a batch
and a buffer. -/
theorem Bounded.works {opts : Options} (h : w.Bounded opts) (hpos : 0 < opts.maxBatchSize) (hfirst : w.FirstPass l)
    (hs : Machine.Starts w.machine l task el) (num : Nat) :
    w.mark num ≤ (final task.run el).bytesRead num ∧
      (final task.run el).bytesRead num < w.mark num + (opts.maxBatchSize + opts.readBufferCap) := by
  have hset := hs.settled h.calm
  obtain ⟨h', hel, -⟩ := hs.withHandle
  have hsock : el.Socketed := by
    rw [hel]
    exact h.sound.socketed
  have hbytes : el.bytesRead num = w.machine.el.bytesRead num := by rw [hel]; rfl
  by_cases hex : ∃ key u, task.ReadsAt el key u
  · obtain ⟨key, u, hread⟩ := hex
    obtain ⟨hpath, hb, status, v, hv, hfinal⟩ := hread.share hsock hset num
    have hu : u.options = opts ∧ u.Fits := by
      refine invariant_of_steps (P := fun u => u.options = opts ∧ u.Fits) hpath ?_ ?_
      · rintro s t ⟨k, he⟩ ⟨ho, hf⟩
        exact ⟨he.fits.1.trans ho, he.fits.2 hf⟩
      · rw [hel]
        exact ⟨h.options, h.fits⟩
    have hoffered : u.offered = opts.readBufferCap := by
      rw [offered_eq, hu.1]
      exact Nat.max_eq_right (hu.1 ▸ hu.2)
    rcases processRead_share hv num with heq | ⟨i, hi, hc, hid, hlt⟩
    · rw [hfinal, heq, hb, hbytes]
      exact ⟨h.low num, h.high num⟩
    · have hmark : w.machine.el.bytesRead num = w.mark num := hid ▸ hfirst task el key u i hs hread hi hc
      have hlow : u.bytesRead num ≤ v.bytesRead num := by
        obtain ⟨-, new, hnew, -⟩ := processRead_records hv
        rw [bytesRead_append hnew]
        exact Nat.le_add_right _ _
      rw [hu.1, hoffered, hb, hbytes, hmark] at hlt
      rw [hb, hbytes, hmark] at hlow
      rw [hfinal]
      exact ⟨hlow, hlt hpos⟩
  · rw [Task.unread hsock hset (fun key u hr => hex ⟨key, u, hr⟩) num, hbytes]
    exact ⟨h.low num, h.high num⟩

/-- **Every step keeps the invariant.** -/
theorem Bounded.step {opts : Options} (h : w.Bounded opts) (hpos : 0 < opts.maxBatchSize) (hfirst : w.FirstPass l)
    (hstep : w.step l = some w') : w'.Bounded opts := by
  obtain ⟨m, hm, rfl⟩ := Option.map_eq_some_iff.mp hstep
  have hmoves := Machine.step_moves hm
  have hpath := hmoves.evolves h.calm
  have hkept : m.el.Sound ∧ m.el.options = opts ∧ m.el.Fits :=
    invariant_of_steps (P := fun t => t.Sound ∧ t.options = opts ∧ t.Fits) hpath
      (fun _ _ he ⟨hs, ho, hf⟩ => ⟨he.sound hs, he.fits.1.trans ho, he.fits.2 hf⟩) ⟨h.sound, h.options, h.fits⟩
  -- the bytes of the new state lie between the mark and the bound
  have hbytes : ∀ num, w.mark num ≤ m.el.bytesRead num ∧
      m.el.bytesRead num < w.mark num + (opts.maxBatchSize + opts.readBufferCap) := by
    intro num
    have hsame : m.el.bytesRead num = w.machine.el.bytesRead num → w.mark num ≤ m.el.bytesRead num ∧
        m.el.bytesRead num < w.mark num + (opts.maxBatchSize + opts.readBufferCap) := fun he => by
      rw [he]
      exact ⟨h.low num, h.high num⟩
    have htask : ∀ {task : Task} {el t : EventLoop η κ}, Machine.Starts w.machine l task el → final task.run el = t →
        t.Neutral m.el → w.mark num ≤ m.el.bytesRead num ∧
          m.el.bytesRead num < w.mark num + (opts.maxBatchSize + opts.readBufferCap) := by
      rintro task el t hs rfl hn
      rw [bytesRead, hn.trace]
      exact h.works hpos hfirst hs num
    cases hmoves with
    | idles hel _ => exact hsame (by rw [bytesRead, hel.trace, bytesRead])
    | pollFails _ | gets _ _ _ | mints _ => exact hsame rfl
    | drops _ =>
      refine hsame (bytesRead_of_records (Records.mono (p := Obs.Parting) ⟨?_, ?_⟩ (unread_allowed num).parting))
      · rw [Machine.dropAll, recordAll_eq]
      · refine ⟨_, congrArg EventLoop.trace (recordAll_eq _ _), fun obs hobs => ?_⟩
        obtain ⟨i, -, rfl⟩ := List.mem_map.mp hobs
        trivial
    | works hs hrun hel _ => exact htask hs (final_of_ok hrun) hel
    | ends hs hrun hel _ _ => exact htask hs (final_of_error hrun) hel
  have hrest : ∀ mark : Nat → Nat, (∀ num, mark num ≤ m.el.bytesRead num ∧
      m.el.bytesRead num < mark num + (opts.maxBatchSize + opts.readBufferCap)) → Bounded opts ⟨m, mark⟩ :=
    fun mark hb => ⟨hmoves.calm h.calm, hkept.1, hkept.2.2, hkept.2.1, fun num => (hb num).1, fun num => (hb num).2⟩
  cases l with
  | poll evs =>
    -- a new iteration begins, and nothing is read while the loop polls
    have hel : m.el = w.machine.el := by
      simp only [Machine.step] at hm
      split at hm
      · cases hm
        rfl
      · cases hm
    refine hrest _ fun num => ?_
    rw [hel]
    exact ⟨Nat.le_refl _, Nat.lt_add_of_pos_right (Nat.lt_of_lt_of_le hpos (Nat.le_add_right _ _))⟩
  | _ => exact hrest _ hbytes

/-- **Yielding bounds a connection's share of an iteration**, in every run in which no connection is read twice in
one. -/
theorem share_bounded {b : Setup.OptionsBuilder} (hb : b.Representable) {el : EventLoop η κ} (hfresh : el.Fresh)
    (hopts : el.options = b.build.forLoop) (hbuf : el.ioBuffer.bytes = []) (hrun : run step (start el) ls = some w)
    (hfirst : Along step FirstPass (start el) ls) (num : Nat) :
    w.read num < b.build.maxBatchSize.toNat + b.build.readBufferCap.toNat := by
  have hpos : 0 < b.build.forLoop.maxBatchSize := Setup.Rounds.pos ((b.normal_iff).mpr hb).batch
  have hzero : ∀ num, el.bytesRead num = 0 := fun num => by rw [bytesRead, hfresh.trace]; rfl
  have h0 : (start el).Bounded b.build.forLoop := by
    refine ⟨Machine.initial_calm hfresh, hfresh.sound, ?_, hopts, fun num => Nat.zero_le _, fun num => ?_⟩
    · show el.ioBuffer.len ≤ _
      rw [BytesMut.len, hbuf]
      exact Nat.zero_le _
    · show el.bytesRead num < 0 + _
      rw [hzero, Nat.zero_add]
      exact Nat.lt_of_lt_of_le hpos (Nat.le_add_right _ _)
  have h := run_invariant (fun _ _ _ h hf hs => h.step hpos hf hs) h0 hfirst hrun
  exact Nat.sub_lt_left_of_lt_add (h.low num) (h.high num)

/-! ## Two iterations -/

omit [Codec κ Msg] [EventHandler η κ Msg] in
/-- Nothing has been read at all. -/
def untouched (w : Iteration η κ) : Bool :=
  w.machine.el.trace.all fun
    | .traffic _ _ _ => false
    | _ => true

omit [Codec κ Msg] [EventHandler η κ Msg] in
theorem untouched_unread (h : w.untouched = true) (num : Nat) : w.machine.el.bytesRead num = 0 := by
  have hzero : w.machine.el.trace.map (Obs.bytesRead num) = w.machine.el.trace.map fun _ => 0 := by
    refine List.map_congr_left fun obs hobs => ?_
    have hobs := List.all_eq_true.mp h obs hobs
    cases obs <;> first | rfl | cases hobs
  rw [bytesRead, hzero]
  simp

/-- As long as nothing has been read, every read pass is the first. -/
theorem firstPass_of_untouched (h0 : ∀ num, w.mark num = 0) (h : Along step (fun w _ => w.untouched = true) w ls) :
    Along step FirstPass w ls := by
  refine h.upgrade (P := fun w => ∀ num, w.mark num = 0) (fun w l w' hw hun hstep num => ?_)
    (fun w l hw hun _ _ _ _ i _ _ _ _ => (untouched_unread hun i.id).trans (hw i.id).symm) h0
  obtain ⟨m, -, rfl⟩ := Option.map_eq_some_iff.mp hstep
  cases l with
  | poll evs => exact untouched_unread hun num
  | _ => exact hw num

/-- A builder that asks for batches of 2 bytes. -/
def smallBatches : Setup.OptionsBuilder := { readBufferCap := some 1024, edgeTriggeredIoChunk := some 2 }

theorem smallBatches_representable : smallBatches.Representable := ⟨by decide, by decide, by decide⟩

/-- A loop with these options. -/
def smallLoop : EventLoop Doorman RawCodec := .new 0 smallBatches.build.forLoop .admits [] [] (fun _ => 0) 0

/-- A connection whose socket has more and more data, and what the second poll returns. -/
def flood (evs : List Event) : List (Label Doorman) :=
  [.accept ⟨4, [], List.replicate 9 (.data (List.replicate 600 0)), [], [], none⟩ (.tcp "a") (.tcp "b"), .advance,
    .advance, .poll [], .advance, .advance, .advance, .tick false, .advance, .poll evs, .advance]

theorem share_bounded_flood : ∃ w, run step (start smallLoop) (flood [⟨0, true, false, false, false⟩]) = some w ∧
    w.read 0 = 600 ∧ w.read 0 < smallBatches.build.maxBatchSize.toNat + smallBatches.build.readBufferCap.toNat := by
  have hrun : (run step (start smallLoop) (flood [⟨0, true, false, false, false⟩])).any
      (fun w => decide (w.read 0 = 600)) = true := by decide +kernel
  have hun : Along step (fun w _ => w.untouched = true) (start smallLoop) (flood [⟨0, true, false, false, false⟩]) :=
    .of_check (fun _ _ => id) (by decide +kernel)
  have hfresh : smallLoop.Fresh := new_fresh _ _ _ _ _ _ _
  obtain ⟨w, hw, hread⟩ := exists_of_any hrun
  have hfirst := firstPass_of_untouched (fun _ => rfl) hun
  exact ⟨w, hw, of_decide_eq_true hread, share_bounded smallBatches_representable hfresh rfl rfl hw hfirst 0⟩

/-- The wake event comes after the data: the `Read` that the yielding pass asked for is handled in the same
iteration. -/
theorem share_not_bounded : ∃ w, run step (start smallLoop)
      (flood [⟨0, true, false, false, false⟩, ⟨WAKE_TOKEN, true, false, false, false⟩] ++ [.advance, .advance]) =
        some w ∧
    smallBatches.Representable ∧
      ¬w.read 0 < smallBatches.build.maxBatchSize.toNat + smallBatches.build.readBufferCap.toNat := by
  have hrun : (run step (start smallLoop)
      (flood [⟨0, true, false, false, false⟩, ⟨WAKE_TOKEN, true, false, false, false⟩] ++ [.advance, .advance])).any
      (fun w => decide ¬w.read 0 < smallBatches.build.maxBatchSize.toNat + smallBatches.build.readBufferCap.toNat) =
        true := by decide +kernel
  obtain ⟨w, hw, hread⟩ := exists_of_any hrun
  exact ⟨w, hw, smallBatches_representable, of_decide_eq_true hread⟩

end Iteration
end Rnet
