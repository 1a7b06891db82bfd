import Rnet.Connection.Defs

/-!
# Commands

`command.rs`: what other threads, the acceptor and the loop itself ask an event loop to do.
-/

namespace Rnet

inductive Command
  | none
  | asyncWrite (gfd : Gfd) (data : Bytes)
  | register (socket : Socket) (localAddr peerAddr : NetworkAddress)
  | close (key : Nat)
  | wake
  | read (key : Nat)
  | write (key : Nat)
  | shutdown
  deriving DecidableEq, Repr

inductive Prioity
  | high
  | low
  deriving DecidableEq, Repr

/-- The derived order of the enumeration: `High < Low`. -/
def Prioity.toNat : Prioity → Nat
  | .high => 0
  | .low => 1

instance : LT Prioity := ⟨fun p q => p.toNat < q.toNat⟩

instance (p q : Prioity) : Decidable (p < q) := inferInstanceAs (Decidable (p.toNat < q.toNat))

def Command.priority : Command → Prioity
  | .none => .low
  | .asyncWrite _ _ => .high
  | .wake => .low
  | .register _ _ _ => .low
  | .close _ => .low
  | .read _ => .high
  | .write _ => .high
  | .shutdown => .high

/-- The connection an `AsyncWrite` is for. -/
def Command.addressee : Command → Option Gfd
  | .asyncWrite gfd _ => some gfd
  | .none | .register _ _ _ | .close _ | .wake | .read _ | .write _ | .shutdown => Option.none

def MAX_POLL_EVENT_CAP : Nat := 1024

def MAX_ASYNC_TASK_ONE_TIME : Nat := 256

/-- The test of `trigger` for the common queue, on the length of the urgent one. -/
def spills (priority : Prioity) (urgentLen : Nat) : Bool :=
  decide (.high < priority) && decide (MAX_POLL_EVENT_CAP ≤ urgentLen)

/-- A high priority never goes to the common queue. -/
@[simp] theorem spills_high (n : Nat) : spills .high n = false := rfl

theorem low_of_spills {p : Prioity} {n : Nat} (h : spills p n = true) : p = .low := by
  cases p with
  | high => cases h
  | low => rfl

end Rnet
