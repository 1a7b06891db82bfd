import Rnet.SocketAddr
import Mathlib.Algebra.Group.Nat.Defs
import Mathlib.Data.List.TakeWhile

/-!
# How the standard library prints socket addresses

`Display` of `SocketAddr`: octets in decimal digits with dots between them, groups in hexadecimal digits with colons,
the first longest run of at least two zero groups as `::`, and an address of version 4 that is mapped into version 6
with its octets. What was parsed is printed as a text that is parsed to it again (`parse_displayAddr`).
-/

namespace Rnet.Net

/-! ## Numbers -/

theorem toDigit_digitChar {radix d : Nat} (hd : d < radix) (hradix : radix ≤ 16) :
    toDigit radix (Nat.digitChar d) = some d := by
  have hall : ∀ d : Fin 16, toDigit 16 (Nat.digitChar d) = some d.val := by decide
  have hd16 := hall ⟨d, by omega⟩
  obtain ⟨heq, -⟩ := Option.filter_eq_some_iff.mp hd16
  exact Option.filter_eq_some_iff.mpr ⟨heq, by simpa using hd⟩

/-- All characters of a printed number are digits. -/
theorem toDigit_of_mem {radix n : Nat} (h1 : 1 < radix) (hradix : radix ≤ 16) {c : Char}
    (hc : c ∈ Nat.toDigits radix n) : (toDigit radix c).isSome = true := by
  induction n using Nat.strong_induction_on with
  | _ n ih =>
    rw [Nat.toDigits_eq_if h1] at hc
    split at hc
    · rename_i hlt
      rw [List.mem_singleton.mp hc, toDigit_digitChar hlt hradix]
      rfl
    · rename_i hge
      rcases List.mem_append.mp hc with hc | hc
      · exact ih (n / radix) (Nat.div_lt_self (by omega) h1) hc
      · rw [List.mem_singleton.mp hc, toDigit_digitChar (Nat.mod_lt _ (by omega)) hradix]
        rfl

/-- A printed number has its value. -/
theorem foldl_toDigits {radix : Nat} (h1 : 1 < radix) (hradix : radix ≤ 16) (n : Nat) :
    (Nat.toDigits radix n).foldl (fun n c => n * radix + (toDigit radix c).getD 0) 0 = n := by
  induction n using Nat.strong_induction_on with
  | _ n ih =>
    rw [Nat.toDigits_eq_if h1]
    split
    · rename_i hlt
      simp [toDigit_digitChar hlt hradix]
    · rename_i hge
      rw [List.foldl_append, ih (n / radix) (Nat.div_lt_self (by omega) h1)]
      simp only [List.foldl_cons, List.foldl_nil, toDigit_digitChar (Nat.mod_lt n (by omega : 0 < radix)) hradix,
        Option.getD_some]
      exact Nat.div_add_mod' n radix

/-- Only zero starts with the digit zero. -/
theorem eq_zero_of_head {radix n : Nat} (h1 : 1 < radix) (hradix : radix ≤ 16)
    (h : (Nat.toDigits radix n).head? = some '0') : n = 0 := by
  induction n using Nat.strong_induction_on with
  | _ n ih =>
    by_cases hlt : n < radix
    · rw [Nat.toDigits_of_lt_base hlt] at h
      have hdigit := toDigit_digitChar hlt hradix
      rw [Option.some.inj h] at hdigit
      have hzero := toDigit_digitChar (show 0 < radix by omega) hradix
      exact Option.some.inj (hdigit.symm.trans hzero)
    · have hge : radix ≤ n := Nat.le_of_not_lt hlt
      rw [Nat.toDigits_of_base_le h1 hge, List.head?_append_of_ne_nil _ Nat.toDigits_ne_nil] at h
      have hpos : 0 < n / radix := Nat.div_pos hge (by omega)
      exact absurd (ih (n / radix) (Nat.div_lt_self (by omega) h1) h) (Nat.ne_of_gt hpos)

theorem takeWhile_digits {radix : Nat} {digits rest : Str} (hdigits : ∀ c ∈ digits, (toDigit radix c).isSome = true)
    (hrest : EndsNumber radix rest) : (digits ++ rest).takeWhile (fun c => (toDigit radix c).isSome) = digits := by
  rw [List.takeWhile_append_of_pos hdigits]
  cases rest with
  | nil => simp
  | cons c rest => simp [hrest c rfl]

/-- **A printed number is read.** -/
theorem readNumber_toDigits {radix : Nat} {maxDigits : Option Nat} {allowZeroPrefix : Bool} {max n : Nat} {rest : Str}
    (h1 : 1 < radix) (hradix : radix ≤ 16) (hmax : n ≤ max)
    (hlen : ∀ k, maxDigits = some k → 0 < k ∧ n < radix ^ k) (hrest : EndsNumber radix rest) :
    readNumber radix maxDigits allowZeroPrefix max (Nat.toDigits radix n ++ rest) = some (n, rest) := by
  have hdigits : ∀ c ∈ Nat.toDigits radix n, (toDigit radix c).isSome = true := fun c hc => toDigit_of_mem h1 hradix hc
  rw [readNumber, takeWhile_digits hdigits hrest]
  simp only [foldl_toDigits h1 hradix]
  rw [if_neg Nat.toDigits_ne_nil, if_neg, if_neg, if_neg (Nat.not_lt_of_le hmax), List.drop_left]
  · intro hzero
    simp only [Bool.and_eq_true, Bool.not_eq_true', decide_eq_true_eq] at hzero
    obtain ⟨⟨-, hhead⟩, hlong⟩ := hzero
    rw [eq_zero_of_head h1 hradix hhead, Nat.toDigits_zero] at hlong
    exact absurd hlong (by decide)
  · cases maxDigits with
    | none => simp
    | some k =>
      obtain ⟨hk, hlt⟩ := hlen k rfl
      simpa using (Nat.length_toDigits_le_iff h1 hk).mpr hlt

/-! ## What is printed -/

/-- The first item, and each of the others behind a separator. -/
def fmtSubslice {α : Type} (sep : Char) (text : α → Str) : List α → Str
  | [] => []
  | first :: tail => text first ++ tail.flatMap fun item => sep :: text item

def displayIpv4 (octets : List UInt8) : Str := fmtSubslice '.' (fun n => Nat.toDigits 10 n.toNat) octets

def displayGroups (segments : List UInt16) : Str := fmtSubslice ':' (fun n => Nat.toDigits 16 n.toNat) segments

/-- A run of zero groups. -/
structure Span where
  start : Nat
  len : Nat
  deriving DecidableEq, Repr

/-- The loop of `Display` that looks for the first longest run, from the group `i` on. -/
def zeroes (i : Nat) (longest current : Span) : List UInt16 → Span
  | [] => longest
  | segment :: segments =>
    if segment = 0 then
      let current : Span := ⟨if current.len = 0 then i else current.start, current.len + 1⟩
      zeroes (i + 1) (if longest.len < current.len then current else longest) current segments
    else zeroes (i + 1) longest ⟨0, 0⟩ segments

/-- `Ipv6Addr::to_ipv4_mapped` -/
def toIpv4Mapped : List UInt16 → Option (List UInt8)
  | [0, 0, 0, 0, 0, 0xFFFF, high, low] =>
    some [.ofNat (high.toNat / 256), .ofNat (high.toNat % 256), .ofNat (low.toNat / 256), .ofNat (low.toNat % 256)]
  | _ => none

def displayIpv6 (segments : List UInt16) : Str :=
  match toIpv4Mapped segments with
  | some octets => "::ffff:".toList ++ displayIpv4 octets
  | none =>
    let span := zeroes 0 ⟨0, 0⟩ ⟨0, 0⟩ segments
    if 1 < span.len then
      displayGroups (segments.take span.start) ++ "::".toList ++ displayGroups (segments.drop (span.start + span.len))
    else displayGroups segments

/-- `Display` of `SocketAddr` -/
def displayAddr : SocketAddr → Str
  | .v4 octets port => displayIpv4 octets ++ ':' :: Nat.toDigits 10 port.toNat
  | .v6 segments port scopeId =>
    let scope := if scopeId = 0 then [] else '%' :: Nat.toDigits 10 scopeId.toNat
    '[' :: displayIpv6 segments ++ scope ++ "]:".toList ++ Nat.toDigits 10 port.toNat

example : displayAddr (.v6 [0xFE80, 0, 0, 0, 0, 1, 0x102, 0x304] 80 7) = "[fe80::1:102:304%7]:80".toList := by decide

example : displayAddr (.v6 [0, 0, 0, 0, 0, 0xFFFF, 0x7F00, 1] 80 0) = "[::ffff:127.0.0.1]:80".toList := by decide

/-! ## Octets -/

theorem endsNumber_nil {radix : Nat} : EndsNumber radix [] := fun _ h => by cases h

theorem endsNumber_cons {radix : Nat} {c : Char} (h : toDigit radix c = none) (rest : Str) :
    EndsNumber radix (c :: rest) := by
  rintro _ ⟨⟩
  exact h

theorem endsNumber_tail {α : Type} {radix : Nat} (sep : Char) (text : α → Str) {rest : Str} (items : List α)
    (hsep : toDigit radix sep = none) (hrest : EndsNumber radix rest) :
    EndsNumber radix ((items.flatMap fun item => sep :: text item) ++ rest) := by
  cases items with
  | nil => exact hrest
  | cons item items => exact endsNumber_cons hsep _

theorem readSeparator_pos {α : Type} {sep : Char} {i : Nat} (hi : 0 < i) (inner : Str → Option (α × Str)) (s : Str) :
    readSeparator sep i inner (sep :: s) = inner s := by
  simp [readSeparator, readGivenChar, hi]

theorem readOctet {n : UInt8} {rest : Str} (hrest : EndsNumber 10 rest) :
    readNumber 10 (some 3) false 255 (Nat.toDigits 10 n.toNat ++ rest) = some (n.toNat, rest) := by
  have hn : n.toNat < 256 := n.toNat_lt
  refine readNumber_toDigits (by decide) (by decide) (by omega) ?_ hrest
  rintro _ ⟨⟩
  exact ⟨by decide, by omega⟩

theorem readOctets_tail (octets : List UInt8) {i : Nat} (hi : 0 < i) {rest : Str} (hrest : EndsNumber 10 rest) :
    readOctets octets.length i ((octets.flatMap fun n => '.' :: Nat.toDigits 10 n.toNat) ++ rest) =
      some (octets, rest) := by
  induction octets generalizing i with
  | nil => rfl
  | cons n octets ih =>
    have hread := readOctet (n := n) (endsNumber_tail '.' (fun n => Nat.toDigits 10 (UInt8.toNat n)) octets
      (by decide) hrest)
    rw [List.flatMap_cons, List.length_cons, readOctets, List.cons_append, List.cons_append, List.append_assoc,
      readSeparator_pos hi, hread]
    simp only [ih (Nat.succ_pos i), Option.map_some, UInt8.ofNat_toNat]

/-- Printed octets are read. -/
theorem readIpv4Addr_display {octets : List UInt8} (hlen : octets.length = 4) {rest : Str}
    (hrest : EndsNumber 10 rest) :
    readIpv4Addr (displayIpv4 octets ++ rest) = some (octets, rest) := by
  cases octets with
  | nil => cases hlen
  | cons n octets =>
    have htail : octets.length = 3 := Nat.succ.inj hlen
    have hread := readOctet (n := n) (endsNumber_tail '.' (fun n => Nat.toDigits 10 (UInt8.toNat n)) octets
      (by decide) hrest)
    have hoctets := readOctets_tail octets Nat.one_pos hrest
    rw [htail] at hoctets
    rw [readIpv4Addr, displayIpv4, fmtSubslice, List.append_assoc, readOctets, readSeparator, if_neg (Nat.lt_irrefl 0),
      hread]
    simp only [hoctets, Option.map_some, UInt8.ofNat_toNat]

/-! ## Groups -/

theorem toDigit_ten_none {c : Char} (h : toDigit 16 c = none) : toDigit 10 c = none := by
  rw [toDigit, Option.filter_eq_none_iff] at h ⊢
  intro d hd
  have := h d hd
  simp only [decide_eq_true_eq] at this ⊢
  omega

/-- What stands behind the groups: no digit, no dot, and behind a colon no digit either. -/
structure EndsGroups (rest : Str) : Prop where
  number : EndsNumber 16 rest
  dot : rest.head? ≠ some '.'
  colon : ∀ s, rest = ':' :: s → EndsNumber 16 s

/-- Behind the decimal digits that a group starts with there is no dot. -/
theorem head_dropWhile_group {digits rest : Str} (hdigits : ∀ c ∈ digits, (toDigit 16 c).isSome = true)
    (hrest : EndsNumber 16 rest) (hdot : rest.head? ≠ some '.') :
    ((digits ++ rest).dropWhile fun c => (toDigit 10 c).isSome).head? ≠ some '.' := by
  induction digits with
  | nil =>
    cases rest with
    | nil => simp
    | cons c rest =>
      rw [List.nil_append, List.dropWhile_cons, if_neg (by simp [toDigit_ten_none (hrest c rfl)])]
      exact hdot
  | cons c digits ih =>
    rw [List.cons_append, List.dropWhile_cons]
    split
    · exact ih fun d hd => hdigits d (List.mem_cons_of_mem _ hd)
    · intro hc
      have hsome := hdigits c List.mem_cons_self
      rw [Option.some.inj hc] at hsome
      exact absurd hsome (by decide)

theorem rest_of_readNumber {radix : Nat} {maxDigits : Option Nat} {allowZeroPrefix : Bool} {max n : Nat} {s rest : Str}
    (h : readNumber radix maxDigits allowZeroPrefix max s = some (n, rest)) :
    rest = s.dropWhile fun c => (toDigit radix c).isSome := by
  simp only [readNumber] at h
  split at h
  · cases h
  split at h
  · cases h
  split at h
  · cases h
  split at h
  · cases h
  cases h
  have happend := List.takeWhile_append_dropWhile (p := fun c => (toDigit radix c).isSome) (l := s)
  nth_rewrite 2 [← happend]
  exact List.drop_left

/-- A group is not the start of an address of version 4. -/
theorem readIpv4Addr_group {n : Nat} {rest : Str} (hrest : EndsNumber 16 rest) (hdot : rest.head? ≠ some '.') :
    readIpv4Addr (Nat.toDigits 16 n ++ rest) = none := by
  rw [readIpv4Addr, readOctets, readSeparator, if_neg (Nat.lt_irrefl 0)]
  cases hread : readNumber 10 (some 3) false 255 (Nat.toDigits 16 n ++ rest) with
  | none => rfl
  | some r =>
    obtain ⟨m, rest'⟩ := r
    have hdigits : ∀ c ∈ Nat.toDigits 16 n, (toDigit 16 c).isSome = true := fun c hc =>
      toDigit_of_mem (by decide) (by decide) hc
    have hhead := head_dropWhile_group hdigits hrest hdot
    rw [← rest_of_readNumber hread] at hhead
    have hsep : readSeparator '.' 1 (readNumber 10 (some 3) false 255) rest' = none := by
      cases rest' with
      | nil => rfl
      | cons c rest' =>
        have hc : c ≠ '.' := fun hc => hhead (congrArg some hc)
        simp [readSeparator, readGivenChar, hc]
    simp [readOctets, hsep]

theorem readGroups_end {left i : Nat} {rest : Str} (hrest : EndsGroups rest) :
    readGroups left i rest = ([], false, rest) := by
  have hnone : ∀ {α : Type} (inner : Str → Option (α × Str)), (∀ s, EndsNumber 16 s → inner s = none) →
      readSeparator ':' i inner rest = none := by
    intro α inner hinner
    unfold readSeparator
    split
    · cases rest with
      | nil => rfl
      | cons c s =>
        by_cases hc : c = ':'
        · subst hc
          simp [readGivenChar, hinner s (hrest.colon s rfl)]
        · simp [readGivenChar, hc]
    · exact hinner rest hrest.number
  cases left with
  | zero => rfl
  | succ left =>
    have hipv4 := hnone readIpv4Addr fun s hs => readIpv4Addr_none fun c hc => toDigit_ten_none (hs c hc)
    have hnumber := hnone (readNumber 16 (some 4) true 0xFFFF) fun s hs => readNumber_none hs
    rw [readGroups]
    simp [hipv4, hnumber]

theorem readGroup {n : UInt16} {rest : Str} (hrest : EndsNumber 16 rest) :
    readNumber 16 (some 4) true 0xFFFF (Nat.toDigits 16 n.toNat ++ rest) = some (n.toNat, rest) := by
  have hn : n.toNat < 65536 := n.toNat_lt
  refine readNumber_toDigits (by decide) (by decide) (by omega) ?_ hrest
  rintro _ ⟨⟩
  exact ⟨by decide, by omega⟩

/-- One printed group is read, behind its separator or as the first one. -/
theorem readGroups_group {left i : Nat} {n : UInt16} {s rest : Str} (hrest : EndsNumber 16 rest)
    (hdot : rest.head? ≠ some '.') (hsep : ∀ {α : Type} (inner : Str → Option (α × Str)),
      readSeparator ':' i inner s = inner (Nat.toDigits 16 n.toNat ++ rest)) :
    readGroups (left + 1) i s =
      (n :: (readGroups left (i + 1) rest).1, (readGroups left (i + 1) rest).2.1,
        (readGroups left (i + 1) rest).2.2) := by
  have hipv4 : (if 0 < left then readSeparator ':' i readIpv4Addr s else none) = none := by
    rw [hsep, readIpv4Addr_group hrest hdot, ite_self]
  rw [readGroups, hipv4]
  simp only [hsep, readGroup hrest, UInt16.ofNat_toNat]

/-- Behind a group there are more groups, or what stands behind all of them. -/
theorem behind_group (groups : List UInt16) {rest : Str} (hrest : EndsGroups rest) :
    EndsNumber 16 ((groups.flatMap fun n => ':' :: Nat.toDigits 16 n.toNat) ++ rest) ∧
      ((groups.flatMap fun n => ':' :: Nat.toDigits 16 n.toNat) ++ rest).head? ≠ some '.' := by
  refine ⟨endsNumber_tail ':' (fun n => Nat.toDigits 16 (UInt16.toNat n)) groups (by decide) hrest.number, ?_⟩
  cases groups with
  | nil => exact hrest.dot
  | cons n groups => simp

theorem readGroups_tail (groups : List UInt16) {left i : Nat} (hi : 0 < i) (hleft : groups.length ≤ left) {rest : Str}
    (hrest : EndsGroups rest) :
    readGroups left i ((groups.flatMap fun n => ':' :: Nat.toDigits 16 n.toNat) ++ rest) = (groups, false, rest) := by
  induction groups generalizing left i with
  | nil => exact readGroups_end hrest
  | cons n groups ih =>
    obtain ⟨left, rfl⟩ : ∃ k, left = k + 1 := Nat.exists_eq_succ_of_ne_zero (by simp at hleft; omega)
    obtain ⟨hnumber, hdot⟩ := behind_group groups hrest
    rw [List.flatMap_cons, List.append_assoc, List.cons_append,
      readGroups_group hnumber hdot fun inner => readSeparator_pos hi inner _,
      ih (Nat.succ_pos i) (by simpa using hleft)]

/-- Printed groups are read. -/
theorem readGroups_display (groups : List UInt16) {left : Nat} (hleft : groups.length ≤ left) {rest : Str}
    (hrest : EndsGroups rest) : readGroups left 0 (displayGroups groups ++ rest) = (groups, false, rest) := by
  cases groups with
  | nil => exact readGroups_end hrest
  | cons n groups =>
    obtain ⟨left, rfl⟩ : ∃ k, left = k + 1 := Nat.exists_eq_succ_of_ne_zero (by simp at hleft; omega)
    obtain ⟨hnumber, hdot⟩ := behind_group groups hrest
    rw [displayGroups, fmtSubslice, List.append_assoc, readGroups_group hnumber hdot fun inner => rfl,
      readGroups_tail groups Nat.one_pos (by simpa using hleft) hrest]

/-! ## The run of zero groups -/

/-- The groups of the run are zero. -/
structure ZeroRun (segments : List UInt16) (span : Span) : Prop where
  within : span.start + span.len ≤ segments.length
  zero : ∀ j, span.start ≤ j → j < span.start + span.len → segments[j]? = some 0

theorem zeroRun_empty (segments : List UInt16) : ZeroRun segments ⟨0, 0⟩ :=
  ⟨Nat.zero_le _, fun j _ h => absurd h (Nat.not_lt_zero j)⟩

/-- A zero group behind a run, or a run of its own. -/
theorem ZeroRun.extend {segments : List UInt16} {current : Span} {i : Nat} (h : ZeroRun segments current)
    (hend : current.len = 0 ∨ current.start + current.len = i) (hi : segments[i]? = some 0) :
    ZeroRun segments ⟨if current.len = 0 then i else current.start, current.len + 1⟩ ∧
      (if current.len = 0 then i else current.start) + (current.len + 1) = i + 1 := by
  have hlt : i < segments.length := (List.getElem?_eq_some_iff.mp hi).1
  by_cases hlen : current.len = 0
  · rw [if_pos hlen, hlen]
    refine ⟨⟨hlt, fun j hij hj => ?_⟩, rfl⟩
    obtain rfl : j = i := Nat.le_antisymm (Nat.le_of_lt_succ hj) hij
    exact hi
  · have hend' : current.start + current.len = i := hend.resolve_left hlen
    rw [if_neg hlen]
    refine ⟨⟨by simp only; omega, fun j hij hj => ?_⟩, by omega⟩
    by_cases hji : j = i
    · rw [hji, hi]
    · exact h.zero j hij (by simp only at hj; omega)

theorem zeroes_run {all done segments : List UInt16} {longest current : Span} (hall : all = done ++ segments)
    (hlongest : ZeroRun all longest) (hcurrent : ZeroRun all current)
    (hend : current.len = 0 ∨ current.start + current.len = done.length) :
    ZeroRun all (zeroes done.length longest current segments) := by
  induction segments generalizing done longest current with
  | nil => exact hlongest
  | cons segment segments ih =>
    have hall' : all = (done ++ [segment]) ++ segments := by
      rw [hall, List.append_assoc]
      rfl
    have hlen : done.length + 1 = (done ++ [segment]).length := by simp
    unfold zeroes
    rw [hlen]
    split
    · rename_i hzero
      obtain ⟨hrun, hrunEnd⟩ := hcurrent.extend hend (by simp [hall, hzero])
      refine ih hall' ?_ hrun (Or.inr (hrunEnd.trans hlen))
      by_cases hlonger : longest.len < current.len + 1
      · rw [if_pos hlonger]
        exact hrun
      · rw [if_neg hlonger]
        exact hlongest
    · exact ih hall' hlongest (zeroRun_empty all) (Or.inl rfl)

/-- The groups are those before the run, zeros, and those behind it. -/
theorem ZeroRun.segments_eq {segments : List UInt16} {span : Span} (h : ZeroRun segments span) :
    segments.take span.start ++ List.replicate span.len 0 ++ segments.drop (span.start + span.len) = segments := by
  have hwithin := h.within
  have hzeros : (segments.drop span.start).take span.len = List.replicate span.len 0 := by
    refine List.ext_getElem? fun j => ?_
    rw [List.getElem?_take, List.getElem?_drop, List.getElem?_replicate]
    by_cases hj : j < span.len
    · rw [if_pos hj, if_pos hj]
      exact h.zero _ (Nat.le_add_right _ _) (by omega)
    · rw [if_neg hj, if_neg hj]
  rw [← hzeros, List.append_assoc, ← List.drop_drop, List.take_append_drop, List.take_append_drop]

/-! ## Whole addresses -/

/-- Behind the head of an address stands the run of zero groups. -/
theorem endsGroups_colons {rest : Str} (hrest : EndsNumber 16 (':' :: rest)) : EndsGroups (':' :: ':' :: rest) :=
  ⟨endsNumber_cons (by decide) _, by simp, fun s hs => by cases hs; exact hrest⟩

theorem readIpv6Addr_whole {segments : List UInt16} (hlen : segments.length = 8) {rest : Str}
    (hrest : EndsGroups rest) :
    readIpv6Addr (displayGroups segments ++ rest) = some (segments, rest) := by
  rw [readIpv6Addr, readGroups_display segments (Nat.le_of_eq hlen) hrest]
  exact if_pos hlen

/-- Groups, a double colon, and what is read as the groups behind it. -/
theorem readIpv6Addr_gap {head tail : List UInt16} {ipv4 : Bool} {s rest : Str} (hlen : head.length < 8)
    (htail : readGroups (8 - (head.length + 1)) 0 s = (tail, ipv4, rest)) :
    readIpv6Addr (displayGroups head ++ "::".toList ++ s) =
      some (head ++ List.replicate (8 - head.length - tail.length) 0 ++ tail, rest) := by
  have hcolons : EndsGroups ("::".toList ++ s) := endsGroups_colons (endsNumber_cons (by decide) _)
  rw [readIpv6Addr, List.append_assoc, readGroups_display head (Nat.le_of_lt hlen) hcolons]
  change (if head.length = 8 then _ else
    some (head ++ List.replicate (8 - head.length - (readGroups (8 - (head.length + 1)) 0 s).1.length) 0 ++
      (readGroups (8 - (head.length + 1)) 0 s).1, (readGroups (8 - (head.length + 1)) 0 s).2.2)) = _
  rw [if_neg (Nat.ne_of_lt hlen), htail]

theorem segment_octets (n : UInt16) : segment (.ofNat (n.toNat / 256)) (.ofNat (n.toNat % 256)) = n := by
  have hn : n.toNat < 65536 := n.toNat_lt
  have hhigh : (UInt8.ofNat (n.toNat / 256)).toNat = n.toNat / 256 :=
    UInt8.toNat_ofNat_of_lt' (show n.toNat / 256 < 256 by omega)
  have hlow : (UInt8.ofNat (n.toNat % 256)).toNat = n.toNat % 256 :=
    UInt8.toNat_ofNat_of_lt' (show n.toNat % 256 < 256 by omega)
  rw [segment, hhigh, hlow, Nat.div_add_mod', UInt16.ofNat_toNat]

/-- An address with octets at its end. -/
theorem readGroups_mapped {octets : List UInt8} {one two three four : UInt8}
    (hoctets : octets = [one, two, three, four])
    {rest : Str} (hrest : EndsNumber 10 rest) :
    readGroups 7 0 ("ffff:".toList ++ displayIpv4 octets ++ rest) =
      ([0xFFFF, segment one two, segment three four], true, rest) := by
  have hread := readIpv4Addr_display (show octets.length = 4 by rw [hoctets]; rfl) hrest
  have hmapped : readGroups 6 1 (':' :: (displayIpv4 octets ++ rest)) =
      ([segment one two, segment three four], true, rest) := by
    rw [readGroups, if_pos (by decide), readSeparator_pos Nat.one_pos, hread, hoctets]
  have hffff : "ffff:".toList ++ displayIpv4 octets ++ rest =
      Nat.toDigits 16 (0xFFFF : UInt16).toNat ++ ':' :: (displayIpv4 octets ++ rest) := rfl
  rw [hffff, readGroups_group (endsNumber_cons (by decide) _) (by simp) fun inner => rfl, hmapped]

theorem toIpv4Mapped_some {segments : List UInt16} {octets : List UInt8} (h : toIpv4Mapped segments = some octets) :
    ∃ one two three four, octets = [one, two, three, four] ∧
      segments = List.replicate 5 0 ++ [0xFFFF, segment one two, segment three four] := by
  unfold toIpv4Mapped at h
  split at h
  · rename_i high low
    cases h
    refine ⟨_, _, _, _, rfl, ?_⟩
    rw [segment_octets, segment_octets]
    rfl
  · cases h

/-- Printed groups are read, whichever way they are printed. -/
theorem readIpv6Addr_display {segments : List UInt16} (hlen : segments.length = 8) {rest : Str}
    (hrest : EndsGroups rest) : readIpv6Addr (displayIpv6 segments ++ rest) = some (segments, rest) := by
  unfold displayIpv6
  split
  · rename_i octets hmapped
    obtain ⟨one, two, three, four, hoctets, hsegments⟩ := toIpv4Mapped_some hmapped
    have htail := readGroups_mapped hoctets fun c hc => toDigit_ten_none (hrest.number c hc)
    have hread := readIpv6Addr_gap (show [].length < 8 by decide) htail
    rw [hsegments]
    exact hread
  · have hrun : ZeroRun segments (zeroes 0 ⟨0, 0⟩ ⟨0, 0⟩ segments) :=
      zeroes_run (List.nil_append _).symm (zeroRun_empty _) (zeroRun_empty _) (Or.inl rfl)
    generalize zeroes 0 ⟨0, 0⟩ ⟨0, 0⟩ segments = span at hrun
    have hwithin := hrun.within
    simp only
    split
    · rename_i hspan
      have hhead : (segments.take span.start).length = span.start := by
        rw [List.length_take]
        omega
      have hbehind : (segments.drop (span.start + span.len)).length = 8 - (span.start + span.len) := by
        rw [List.length_drop, hlen]
      have htail := readGroups_display (segments.drop (span.start + span.len))
        (show _ ≤ 8 - ((segments.take span.start).length + 1) by omega) hrest
      have hread := readIpv6Addr_gap (by omega) htail
      have hzeros : 8 - (segments.take span.start).length - (segments.drop (span.start + span.len)).length =
          span.len := by
        omega
      rw [hzeros, hrun.segments_eq] at hread
      rwa [List.append_assoc]
    · exact readIpv6Addr_whole hlen hrest

/-- Four octets, or eight groups. -/
def WellFormed : SocketAddr → Prop
  | .v4 octets _ => octets.length = 4
  | .v6 segments _ _ => segments.length = 8

theorem length_readOctets {left i : Nat} {s rest : Str} {octets : List UInt8}
    (h : readOctets left i s = some (octets, rest)) : octets.length = left := by
  induction left generalizing i s octets with
  | zero =>
    cases h
    rfl
  | succ left ih =>
    rw [readOctets] at h
    split at h
    · cases h
    · obtain ⟨⟨tail, rest'⟩, htail, heq⟩ := Option.map_eq_some_iff.mp h
      cases heq
      exact congrArg (· + 1) (ih htail)

theorem length_readGroups (left i : Nat) (s : Str) : (readGroups left i s).1.length ≤ left := by
  induction left generalizing i s with
  | zero => exact Nat.le_refl 0
  | succ left ih =>
    rw [readGroups]
    split
    · rename_i hipv4
      have hleft : 0 < left := by
        by_contra hno
        rw [if_neg hno] at hipv4
        cases hipv4
      exact Nat.succ_le_succ hleft
    · split
      · exact Nat.succ_le_succ (ih _ _)
      · exact Nat.zero_le _

theorem length_readIpv6Addr {s rest : Str} {segments : List UInt16} (h : readIpv6Addr s = some (segments, rest)) :
    segments.length = 8 := by
  simp only [readIpv6Addr] at h
  split at h
  · rename_i hhead
    cases h
    exact hhead
  split at h
  · cases h
  split at h
  · rename_i hhead _ _ s' _
    have hle := length_readGroups 8 0 s
    have htail := length_readGroups (8 - ((readGroups 8 0 s).1.length + 1)) 0 s'
    cases h
    simp only [List.length_append, List.length_replicate]
    omega
  · cases h

theorem wellFormed_of_readSocketAddrV4 {s rest : Str} {a : SocketAddr} (h : readSocketAddrV4 s = some (a, rest)) :
    WellFormed a := by
  obtain ⟨octets, hoctets, h⟩ := Option.bind_eq_some_iff.mp h
  obtain ⟨port, -, h⟩ := Option.bind_eq_some_iff.mp h
  cases h
  exact length_readOctets hoctets

theorem wellFormed_of_readSocketAddrV6 {s rest : Str} {a : SocketAddr} (h : readSocketAddrV6 s = some (a, rest)) :
    WellFormed a := by
  obtain ⟨s₁, -, h⟩ := Option.bind_eq_some_iff.mp h
  obtain ⟨segments, hsegments, h⟩ := Option.bind_eq_some_iff.mp h
  obtain ⟨s₂, -, h⟩ := Option.bind_eq_some_iff.mp h
  obtain ⟨port, -, h⟩ := Option.bind_eq_some_iff.mp h
  cases h
  exact length_readIpv6Addr hsegments

theorem wellFormed_of_parse {s : Str} {a : SocketAddr} (h : parse s = some a) : WellFormed a := by
  rcases parse_cases h with h4 | ⟨-, h6⟩
  · exact wellFormed_of_readSocketAddrV4 h4
  · exact wellFormed_of_readSocketAddrV6 h6

theorem readPort_display (port : UInt16) : readPort (':' :: Nat.toDigits 10 port.toNat) = some (port.toNat, []) := by
  have hport : port.toNat < 65536 := port.toNat_lt
  have hread : readNumber 10 none true 0xFFFF (Nat.toDigits 10 port.toNat ++ []) = some (port.toNat, []) :=
    readNumber_toDigits (by decide) (by decide) (by omega) (fun _ h => by cases h) endsNumber_nil
  rw [List.append_nil] at hread
  exact hread

/-- The scope is printed unless it is zero, which is what is taken where there is none. -/
theorem readScopeId_display (scopeId : UInt32) {rest : Str} (hrest : EndsNumber 10 rest)
    (hscope : rest.head? ≠ some '%') :
    (readScopeId ((if scopeId = 0 then [] else '%' :: Nat.toDigits 10 scopeId.toNat) ++ rest)).getD
      (0, (if scopeId = 0 then [] else '%' :: Nat.toDigits 10 scopeId.toNat) ++ rest) = (scopeId.toNat, rest) := by
  by_cases hzero : scopeId = 0
  · have hnone : readScopeId rest = none := by
      cases rest with
      | nil => rfl
      | cons c rest =>
        have hc : c ≠ '%' := fun hc => hscope (congrArg some hc)
        simp [readScopeId, readGivenChar, hc]
    rw [if_pos hzero, List.nil_append, hnone, hzero]
    rfl
  · have hid : scopeId.toNat < 4294967296 := scopeId.toNat_lt
    have hread : readNumber 10 none true 0xFFFFFFFF (Nat.toDigits 10 scopeId.toNat ++ rest) =
        some (scopeId.toNat, rest) :=
      readNumber_toDigits (by decide) (by decide) (by omega) (fun _ h => by cases h) hrest
    rw [if_neg hzero, List.cons_append, readScopeId, readGivenChar, if_pos rfl, Option.bind_some, hread]
    rfl

theorem readSocketAddrV4_display {octets : List UInt8} (hlen : octets.length = 4) (port : UInt16) :
    readSocketAddrV4 (displayAddr (.v4 octets port)) = some (.v4 octets port, []) := by
  have hread := readIpv4Addr_display hlen (endsNumber_cons (c := ':') (by decide) (Nat.toDigits 10 port.toNat))
  simp [readSocketAddrV4, displayAddr, hread, readPort_display]

theorem readSocketAddrV6_display {segments : List UInt16} (hlen : segments.length = 8) (port : UInt16)
    (scopeId : UInt32) :
    readSocketAddrV6 (displayAddr (.v6 segments port scopeId)) = some (.v6 segments port scopeId, []) := by
  have hends : EndsGroups ((if scopeId = 0 then [] else '%' :: Nat.toDigits 10 scopeId.toNat) ++
      ']' :: ':' :: Nat.toDigits 10 port.toNat) := by
    split
    · exact ⟨endsNumber_cons (by decide) _, by simp, fun s hs => by cases hs⟩
    · exact ⟨endsNumber_cons (by decide) _, by simp, fun s hs => by cases hs⟩
  have hread := readIpv6Addr_display hlen hends
  have hbracket : EndsNumber 10 (']' :: ':' :: Nat.toDigits 10 port.toNat) := endsNumber_cons (by decide) _
  have hscope := readScopeId_display scopeId hbracket (by simp)
  have htext : displayAddr (.v6 segments port scopeId) = '[' :: (displayIpv6 segments ++
      ((if scopeId = 0 then [] else '%' :: Nat.toDigits 10 scopeId.toNat) ++
        ']' :: ':' :: Nat.toDigits 10 port.toNat)) := by
    simp [displayAddr]
  rw [htext]
  simp only [readSocketAddrV6, readGivenChar, if_true, Option.bind_eq_bind, Option.bind_some, hread, hscope,
    readPort_display]
  simp

/-- **What was parsed is printed as a text that is parsed to it.** -/
theorem parse_displayAddr {s : Str} {a : SocketAddr} (h : parse s = some a) : parse (displayAddr a) = some a := by
  have hwell := wellFormed_of_parse h
  cases a with
  | v4 octets port =>
    rw [parse, readSocketAddrV4_display hwell]
    rfl
  | v6 segments port scopeId =>
    have hnone : readSocketAddrV4 (displayAddr (.v6 segments port scopeId)) = none :=
      readSocketAddrV4_none (endsNumber_cons (by decide) _)
    rw [parse, hnone, readSocketAddrV6_display hwell]
    rfl

end Rnet.Net
