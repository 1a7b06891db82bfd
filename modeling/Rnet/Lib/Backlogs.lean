import Rnet.Lib.Runs

/-!
# Backlogs under edge-triggered polling

Items arrive in a `Backlog`, and each arrival raises an edge, which is delivered once. Whoever gets the edge takes items
until a call is answered with an error; the error may say that the backlog is empty, or it may concern one item or the
call alone (`step`, `answer`). `NobodyWaits answers`: calls that were answered so leave no item without an edge still to
be delivered, whatever was in the backlog and whatever arrives meanwhile. Being told that the backlog is empty
(`Blocked`) is enough for that, and for a loop that goes on until the first error both are a matter of the first error
it is going to get (`blocked_upToError`, `nobodyWaits_upToError`). `Drains` is the rule for such loops.
-/

namespace Backlogs

open Runs

/-- Errors, one of which is the answer of an empty backlog. -/
class WouldBlock (ε : Type*) where
  wouldBlock : ε
  blocks : ε → Bool
  blocks_wouldBlock : blocks wouldBlock = true

export WouldBlock (wouldBlock blocks blocks_wouldBlock)

variable {α ε : Type*}

/-! ## The backlog -/

structure Backlog (α : Type*) where
  pending : List α
  /-- an edge is still to be delivered -/
  edge : Bool
  deriving DecidableEq, Repr

inductive Happening (α ε : Type*)
  | arrives (x : α)
  /-- a call gets the first item -/
  | takes
  /-- a call fails because of the first item, which is lost -/
  | aborts (e : ε)
  /-- a call fails -/
  | fails (e : ε)
  deriving DecidableEq, Repr

/-- Everybody who waits has an edge to come. -/
def Backlog.Covered (b : Backlog α) : Prop := b.pending = [] ∨ b.edge = true

section

variable [WouldBlock ε]

/-- Only an empty backlog answers that a call would block. -/
def step (b : Backlog α) : Happening α ε → Option (Backlog α)
  | .arrives x => some ⟨b.pending ++ [x], true⟩
  | .takes => some ⟨b.pending.tail, b.edge⟩
  | .aborts e => if blocks e || b.pending.isEmpty then none else some ⟨b.pending.tail, b.edge⟩
  | .fails e => if blocks e then none else some b

/-- What a call is answered. -/
def answer (b : Backlog α) : Happening α ε → Option (Except ε α)
  | .arrives _ => none
  | .takes => some (match b.pending with
    | [] => .error wouldBlock
    | x :: _ => .ok x)
  | .aborts e | .fails e => some (.error e)

/-- A call was told that the backlog is empty. -/
def Blocked (answers : List (Except ε α)) : Prop := ∃ e, .error e ∈ answers ∧ blocks e = true

/-- Calls that were answered so leave nobody waiting without an edge to come. -/
def NobodyWaits (answers : List (Except ε α)) : Prop :=
  ∀ b hs b', run step b hs = some b' → outputs step answer b hs = answers → Backlog.Covered b'

variable {b b' : Backlog α} {h : Happening α ε}

omit [WouldBlock ε] in
theorem Backlog.Covered.tail (hb : b.Covered) : Backlog.Covered ⟨b.pending.tail, b.edge⟩ :=
  hb.imp_left fun hempty => by rw [hempty]; rfl

theorem Backlog.Covered.step (hb : b.Covered) (hstep : step b h = some b') : b'.Covered := by
  cases h with
  | arrives x =>
    cases hstep
    exact Or.inr rfl
  | takes =>
    cases hstep
    exact hb.tail
  | aborts e =>
    simp only [Backlogs.step] at hstep
    split at hstep <;> cases hstep
    exact hb.tail
  | fails e =>
    simp only [Backlogs.step] at hstep
    split at hstep <;> cases hstep
    exact hb

/-- The backlog was empty when it said so. -/
theorem pending_of_blocks {e : ε} (hstep : step b h = some b') (hout : answer b h = some (.error e))
    (he : blocks e = true) : b.pending = [] := by
  cases h with
  | arrives x => cases hout
  | takes =>
    simp only [answer] at hout
    split at hout
    · assumption
    · cases hout
  | aborts e' =>
    cases hout
    simp [step, he] at hstep
  | fails e' =>
    cases hout
    simp [step, he] at hstep

/-- **Once told that the backlog is empty**, nobody waits without an edge. -/
theorem covered_of_blocked {hs : List (Happening α ε)} (hrun : run step b hs = some b')
    (hblocked : Blocked (outputs step answer b hs)) : b'.Covered := by
  induction hs generalizing b with
  | nil =>
    obtain ⟨e, hmem, -⟩ := hblocked
    cases hmem
  | cons h hs ih =>
    obtain ⟨b₁, hstep, hrest⟩ := run_cons.mp hrun
    rw [outputs_cons_some hstep] at hblocked
    obtain ⟨e, hmem, he⟩ := hblocked
    rcases List.mem_append.mp hmem with hnow | hlater
    · have hempty := pending_of_blocks hstep (Option.mem_toList.mp hnow) he
      exact run_invariant' (fun _ _ _ hb hs => hb.step hs) (Backlog.Covered.step (Or.inl hempty) hstep) hrest
    · exact ih hrest ⟨e, hlater, he⟩

theorem Blocked.nobody {answers : List (Except ε α)} (h : Blocked answers) : NobodyWaits answers :=
  fun _ _ _ hrun hout => covered_of_blocked hrun (hout ▸ h)

/-! ## Loops that go on until an error -/

/-- What is answered until the first error; past its end a script would block. -/
def upToError : List (Except ε α) → List (Except ε α)
  | [] => [.error wouldBlock]
  | .ok x :: script => .ok x :: upToError script
  | .error e :: _ => [.error e]

def firstError : List (Except ε α) → ε
  | [] => wouldBlock
  | .ok _ :: script => firstError script
  | .error e :: _ => e

/-- The first error of the script says that the backlog is empty. -/
def FirstErrorBlocks (script : List (Except ε α)) : Prop := blocks (firstError script) = true

instance (script : List (Except ε α)) : Decidable (FirstErrorBlocks script) := inferInstanceAs (Decidable (_ = true))

theorem blocked_upToError (script : List (Except ε α)) : Blocked (upToError script) ↔ FirstErrorBlocks script := by
  induction script with
  | nil => exact iff_of_true ⟨_, List.mem_singleton_self _, blocks_wouldBlock⟩ blocks_wouldBlock
  | cons a script ih =>
    cases a with
    | error e => simp [Blocked, upToError, FirstErrorBlocks, firstError]
    | ok x => simpa [Blocked, upToError, FirstErrorBlocks, firstError] using ih

/-- Otherwise somebody may be left behind the error, with no edge. -/
theorem exists_waiting (x : α) {script : List (Except ε α)} (h : ¬FirstErrorBlocks script) :
    ∃ b hs, run step b hs = some ⟨[x], false⟩ ∧ outputs step answer b hs = upToError script := by
  induction script with
  | nil => exact absurd blocks_wouldBlock h
  | cons a script ih =>
    cases a with
    | error e =>
      have he : blocks e = false := Bool.not_eq_true _ ▸ h
      exact ⟨⟨[x], false⟩, [.fails e], by simp [run, step, he], by simp [outputs, step, answer, he, upToError]⟩
    | ok y =>
      obtain ⟨b, hs, hrun, hout⟩ := ih h
      have hstep : step ⟨y :: b.pending, b.edge⟩ (.takes : Happening α ε) = some b := rfl
      refine ⟨⟨y :: b.pending, b.edge⟩, .takes :: hs, (run_cons_some hstep).trans hrun, ?_⟩
      rw [outputs_cons_some hstep, hout]
      rfl

/-- **A loop that goes on until the first error** leaves nobody waiting if and only if that error says that the backlog
is empty. -/
theorem nobodyWaits_upToError [Nonempty α] (script : List (Except ε α)) :
    NobodyWaits (upToError script) ↔ FirstErrorBlocks script := by
  constructor
  · intro h
    refine Classical.byContradiction fun hno => ?_
    obtain ⟨b, hs, hrun, hout⟩ := exists_waiting (Classical.choice ‹_›) hno
    rcases h b hs _ hrun hout with hempty | hedge
    · cases hempty
    · cases hedge
  · exact fun h => ((blocked_upToError script).mpr h).nobody

/-! ## Loops as state machines -/

variable {S L : Type*} {next : S → L → Option S} {out : S → L → Option (Except ε α)}
  {script : S → Option (List (Except ε α))} {returned : S → Prop}

/-- What a step makes of a loop that has the answers `as` ahead of it. -/
inductive GoesOn (script : S → Option (List (Except ε α))) (returned : S → Prop) (as : List (Except ε α))
    (o : Option (Except ε α)) (s' : S) : Prop
  | idles (ho : o = none) (hs : script s' = some as)
  /-- an item is taken, and the loop goes on or fails -/
  | takes (x : α) (rest : List (Except ε α)) (has : as = .ok x :: rest) (ho : o = some (.ok x))
      (hs : script s' = some rest ∨ script s' = none ∧ ¬returned s')
  | ends (e : ε) (has : upToError as = [.error e]) (ho : o = some (.error e)) (hs : script s' = none)

/-- A loop is under way while it has a script, and each step of it is as in `GoesOn`. -/
def Drains (next : S → L → Option S) (out : S → L → Option (Except ε α)) (script : S → Option (List (Except ε α)))
    (returned : S → Prop) : Prop :=
  ∀ s l s' as, script s = some as → next s l = some s' → GoesOn script returned as (out s l) s'

omit [WouldBlock ε] in
/-- Nothing more is done in a run along the loop. -/
theorem nil_of_along {s : S} {ls : List L} (h : Along next (fun s _ => (script s).isSome = true) s ls)
    (hs : script s = none) : ls = [] := by
  cases ls with
  | nil => rfl
  | cons l ls =>
    have hsome : (script s).isSome = true := h.1
    rw [hs] at hsome
    cases hsome

/-- **A loop that has returned** was answered what its script says up to the first error. -/
theorem Drains.outputs (hd : Drains next out script returned) {s s' : S} {ls : List L} {as : List (Except ε α)}
    (hs : script s = some as) (hunder : Along next (fun s _ => (script s).isSome = true) s ls)
    (hrun : run next s ls = some s') (hend : script s' = none) (hreturned : returned s') :
    Runs.outputs next out s ls = upToError as := by
  induction ls generalizing s as with
  | nil =>
    cases hrun
    rw [hs] at hend
    cases hend
  | cons l ls ih =>
    obtain ⟨s₁, hstep, hrest⟩ := run_cons.mp hrun
    have hunder₁ := hunder.2 s₁ hstep
    rw [outputs_cons_some hstep]
    cases hd s l s₁ as hs hstep with
    | idles ho hs₁ =>
      rw [ho, ih hs₁ hunder₁ hrest]
      rfl
    | takes x rest has ho hs₁ =>
      subst has
      rw [ho]
      rcases hs₁ with hs₁ | ⟨hs₁, hfailed⟩
      · rw [ih hs₁ hunder₁ hrest]
        rfl
      · obtain rfl := nil_of_along hunder₁ hs₁
        cases hrest
        exact absurd hreturned hfailed
    | ends e has ho hs₁ =>
      obtain rfl := nil_of_along hunder₁ hs₁
      rw [ho, has]
      rfl

end

end Backlogs
