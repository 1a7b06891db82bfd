import Mathlib.Algebra.Group.Nat.Defs
import Rnet.Lib.Firsts

/-!
# The cores of an engine

`get_core_ids` of `options.rs`, on a machine of 64 bits. On Linux it goes through the cores that are reported and
keeps the first one of each physical core, until there are as many as asked for: the beginning of `firsts`
(`selectCores_eq`). Before that it allocates room for as many as asked for, however many cores there are, and does not
return unless it gets it (`core_ids_selected_iff`).
-/

namespace Rnet.Setup

open Firsts

/-- `core_affinity::CoreId` -/
structure CoreId where
  id : Nat
  deriving DecidableEq, Repr

structure TopoKey where
  socket : String
  core : String
  deriving DecidableEq, Repr

/-- `char::is_whitespace` -/
def isWhitespace (c : Char) : Bool :=
  let n := c.toNat
  (9 ≤ n && n ≤ 13) || n == 0x20 || n == 0x85 || n == 0xA0 || n == 0x1680 || (0x2000 ≤ n && n ≤ 0x200A)
    || n == 0x2028 || n == 0x2029 || n == 0x202F || n == 0x205F || n == 0x3000

/-- `str::trim` -/
def trim (s : String) : String :=
  .ofList ((s.toList.dropWhile isWhitespace).reverse.dropWhile isWhitespace).reverse

/-- `get_linux_topology_key` on Linux; `readToString` gives `none` for `Err`. -/
def getLinuxTopologyKey (readToString : String → Option String) (cpuId : Nat) : TopoKey :=
  let base := "/sys/devices/system/cpu/cpu" ++ toString cpuId ++ "/topology"
  { socket := trim ((readToString (base ++ "/physical_package_id")).getD "0")
    core := trim ((readToString (base ++ "/core_id")).getD (toString cpuId)) }

/-- What `get_core_ids` finds out about the machine it runs on. -/
structure Host where
  /-- `core_affinity::get_core_ids()` -/
  coreIds : Option (List CoreId)
  /-- `cfg!(target_os = "linux")` -/
  linux : Bool
  /-- `get_linux_topology_key` -/
  topologyKey : Nat → TopoKey
  /-- the allocator grants a request of so many bytes -/
  grants : Nat → Bool

/-- A machine with Linux and these files. -/
def Host.onLinux (coreIds : Option (List CoreId)) (readToString : String → Option String) (grants : Nat → Bool) :
    Host where
  coreIds := coreIds
  linux := true
  topologyKey := getLinuxTopologyKey readToString
  grants := grants

def ISIZE_MAX : Nat := 2 ^ 63 - 1

/-- How an allocation that is not granted ends. -/
inductive AllocFailure
  /-- the panic "capacity overflow" -/
  | capacityOverflow
  /-- the allocator refuses, and the process aborts -/
  | allocError
  deriving DecidableEq, Repr

/-- `Vec::with_capacity(n)` for elements of `size` bytes; no room is asked for when none is needed. -/
def withCapacity {α : Type} (grants : Nat → Bool) (size n : Nat) : Except AllocFailure (List α) :=
  if ISIZE_MAX < size * n then .error .capacityOverflow
  else if size * n = 0 || grants (size * n) then .ok []
  else .error .allocError

/-- The loop of `get_core_ids`. -/
def selectCores (topologyKey : Nat → TopoKey) (targetCount : Nat) :
    List CoreId → List TopoKey → List CoreId → List CoreId
  | selected, _, [] => selected
  | selected, seen, core :: rest =>
    if targetCount ≤ selected.length then selected
    else
      let key := topologyKey core.id
      if key ∈ seen then selectCores topologyKey targetCount selected seen rest
      else selectCores topologyKey targetCount (selected ++ [core]) (key :: seen) rest

/-- `get_core_ids` -/
def getCoreIds (host : Host) (limit : Option UInt64) : Except AllocFailure (List CoreId) :=
  let allCores := host.coreIds.getD []
  match limit with
  | none => .ok allCores
  | some targetCount =>
    if targetCount = 0 then .ok allCores
    else if !host.linux then .ok (allCores.take targetCount.toNat)
    else
      -- a `CoreId` is one `usize`
      match withCapacity host.grants 8 targetCount.toNat with
      | .error e => .error e
      | .ok selected => .ok (selectCores host.topologyKey targetCount.toNat selected [] allCores)

/-! ## The loop -/

/-- What the loop adds to the cores selected so far. -/
theorem selectCores_eq (topologyKey : Nat → TopoKey) (n : Nat) (selected : List CoreId) (seen : List TopoKey)
    (cores : List CoreId) :
    selectCores topologyKey n selected seen cores =
      selected ++ (firsts (fun core => topologyKey core.id) seen cores).take (n - selected.length) := by
  fun_induction selectCores topologyKey n selected seen cores with
  | case1 => simp [firsts]
  | case2 selected seen core rest hfull =>
    rw [Nat.sub_eq_zero_of_le hfull, List.take_zero, List.append_nil]
  | case3 selected seen core rest hroom key hseen ih => rw [ih, firsts, if_pos hseen]
  | case4 selected seen core rest hroom key hnew ih =>
    have hn : n - selected.length = n - (selected ++ [core]).length + 1 := by
      rw [List.length_append, List.length_singleton]
      omega
    rw [ih, firsts, if_neg hnew, hn, List.take_succ_cons, List.append_assoc, List.singleton_append]

/-- With room for the limit, the result is the beginning of the list of physical cores. -/
theorem getCoreIds_linux {cores : List CoreId} {topologyKey : Nat → TopoKey} {grants : Nat → Bool} {limit : UInt64}
    (hlimit : 1 ≤ limit) (hmax : 8 * limit.toNat ≤ ISIZE_MAX) (hroom : grants (8 * limit.toNat) = true) :
    getCoreIds ⟨some cores, true, topologyKey, grants⟩ (some limit) =
      .ok ((firsts (fun core => topologyKey core.id) [] cores).take limit.toNat) := by
  have h0 : limit ≠ 0 := by
    rintro rfl
    exact absurd hlimit (by decide)
  simp only [getCoreIds, if_neg h0, withCapacity, if_neg (Nat.not_lt.mpr hmax), hroom, Bool.or_true, if_true,
    Option.getD_some]
  simp [selectCores_eq]

/-- Too large a limit panics. -/
theorem getCoreIds_overflows {cores : List CoreId} {topologyKey : Nat → TopoKey} {grants : Nat → Bool} {limit : UInt64}
    (hmax : ISIZE_MAX < 8 * limit.toNat) :
    getCoreIds ⟨some cores, true, topologyKey, grants⟩ (some limit) = .error .capacityOverflow := by
  have h0 : limit ≠ 0 := by
    rintro rfl
    exact absurd hmax (by decide)
  simp [getCoreIds, h0, withCapacity, hmax]

/-- A limit for which the allocator has no room aborts. -/
theorem getCoreIds_aborts {cores : List CoreId} {topologyKey : Nat → TopoKey} {grants : Nat → Bool} {limit : UInt64}
    (hlimit : 1 ≤ limit) (hmax : 8 * limit.toNat ≤ ISIZE_MAX) (hroom : grants (8 * limit.toNat) = false) :
    getCoreIds ⟨some cores, true, topologyKey, grants⟩ (some limit) = .error .allocError := by
  have h0 : limit ≠ 0 := by
    rintro rfl
    exact absurd hlimit (by decide)
  have hpos : limit.toNat ≠ 0 := by
    have hle := UInt64.le_iff_toNat_le.mp hlimit
    change 1 ≤ limit.toNat at hle
    omega
  have hrefused : withCapacity grants 8 limit.toNat = (.error .allocError : Except AllocFailure (List CoreId)) := by
    rw [withCapacity, if_neg (Nat.not_lt.mpr hmax), hroom, Bool.or_false, if_neg]
    rw [decide_eq_true_eq]
    omega
  simp only [getCoreIds, if_neg h0, Bool.not_true, Bool.false_eq_true, if_false, hrefused]

/-- On Linux the result is a largest selection of different physical cores, each with the first of its cores, if and
only if room for as many cores as asked for is granted. -/
theorem core_ids_selected_iff (grants : Nat → Bool) (cores : List CoreId) (topologyKey : Nat → TopoKey)
    (limit : UInt64) (hlimit : 1 ≤ limit) :
    (∃ selected, getCoreIds ⟨some cores, true, topologyKey, grants⟩ (some limit) = .ok selected
      ∧ Selects (fun core => topologyKey core.id) limit.toNat cores selected) ↔
      8 * limit.toNat ≤ ISIZE_MAX ∧ grants (8 * limit.toNat) = true := by
  constructor
  · rintro ⟨selected, hsel, -⟩
    rcases Nat.lt_or_ge ISIZE_MAX (8 * limit.toNat) with hmax | hmax
    · rw [getCoreIds_overflows hmax] at hsel
      cases hsel
    · cases hroom : grants (8 * limit.toNat) with
      | true => exact ⟨hmax, rfl⟩
      | false =>
        rw [getCoreIds_aborts hlimit hmax hroom] at hsel
        cases hsel
  · rintro ⟨hmax, hroom⟩
    exact ⟨_, getCoreIds_linux hlimit hmax hroom, selects_take _ _ _⟩

/-- Four cores of two physical ones, on a machine that grants a kilobyte. -/
theorem core_ids_selected_two :
    ∃ selected, getCoreIds ⟨some [⟨0⟩, ⟨1⟩, ⟨2⟩, ⟨3⟩], true, fun id => ⟨"0", toString (id / 2)⟩, (· ≤ 1024)⟩ (some 2) =
      .ok selected
      ∧ Selects (fun core : CoreId => (⟨"0", toString (core.id / 2)⟩ : TopoKey)) (2 : UInt64).toNat
          [⟨0⟩, ⟨1⟩, ⟨2⟩, ⟨3⟩] selected :=
  (core_ids_selected_iff (· ≤ 1024) [⟨0⟩, ⟨1⟩, ⟨2⟩, ⟨3⟩] (fun id => ⟨"0", toString (id / 2)⟩) 2 (by decide)).mpr
    (by decide)

example : getCoreIds (.onLinux (some [⟨0⟩, ⟨1⟩, ⟨2⟩]) (fun path =>
    if path = "/sys/devices/system/cpu/cpu1/topology/core_id" then some "0\n" else none) (· ≤ 1024)) (some 2) =
    .ok [⟨0⟩, ⟨2⟩] := by
  decide

/-- A limit of 2^60 cores panics, also on a machine with one core and whatever the allocator grants. -/
theorem huge_limit_panics :
    getCoreIds ⟨some [⟨0⟩], true, fun _ => ⟨"0", "0"⟩, fun _ => true⟩ (some 1152921504606846976) =
      .error .capacityOverflow
    ∧ ¬ ∃ selected, getCoreIds ⟨some [⟨0⟩], true, fun _ => ⟨"0", "0"⟩, fun _ => true⟩ (some 1152921504606846976) =
        .ok selected
      ∧ Selects (fun _ : CoreId => (⟨"0", "0"⟩ : TopoKey)) (1152921504606846976 : UInt64).toNat [⟨0⟩] selected := by
  have hpanic : getCoreIds ⟨some [⟨0⟩], true, fun _ => ⟨"0", "0"⟩, fun _ => true⟩ (some 1152921504606846976) =
      .error .capacityOverflow := getCoreIds_overflows (by decide)
  refine ⟨hpanic, ?_⟩
  rintro ⟨selected, hsel, -⟩
  rw [hpanic] at hsel
  cases hsel

end Rnet.Setup
