import Mathlib.Data.List.Basic

/-!
# The standard library's socket addresses

What `str::parse::<SocketAddr>` accepts: four decimal octets and a port, or eight groups of hexadecimal digits in
brackets, with at most one `::` and perhaps four octets at the end, an optional scope, and a port. The readers take
what they can from the front and give the rest; one that fails takes nothing.

An address that was parsed is of version 6 if and only if the text starts with a bracket (`isIpv4_of_parse`).
-/

namespace Rnet.Net

/-- The characters of a `str`. -/
abbrev Str := List Char

inductive SocketAddr
  | v4 (octets : List UInt8) (port : UInt16)
  | v6 (segments : List UInt16) (port : UInt16) (scopeId : UInt32)
  deriving DecidableEq, Repr

def SocketAddr.isIpv4 : SocketAddr → Bool
  | v4 _ _ => true
  | v6 _ _ _ => false

/-! ## The readers -/

/-- `char::to_digit` -/
def toDigit (radix : Nat) (c : Char) : Option Nat :=
  let digit :=
    if '0' ≤ c ∧ c ≤ '9' then some (c.toNat - '0'.toNat)
    else if 'a' ≤ c ∧ c ≤ 'z' then some (c.toNat - 'a'.toNat + 10)
    else if 'A' ≤ c ∧ c ≤ 'Z' then some (c.toNat - 'A'.toNat + 10)
    else none
  digit.filter (· < radix)

def readGivenChar (c : Char) : Str → Option Str
  | [] => none
  | d :: s => if d = c then some s else none

/-- A number that is not above `max`, with all the digits that are there. -/
def readNumber (radix : Nat) (maxDigits : Option Nat) (allowZeroPrefix : Bool) (max : Nat) (s : Str) :
    Option (Nat × Str) :=
  let digits := s.takeWhile fun c => (toDigit radix c).isSome
  let value := digits.foldl (fun n c => n * radix + (toDigit radix c).getD 0) 0
  if digits = [] then none
  else if maxDigits.any (· < digits.length) then none
  else if !allowZeroPrefix && digits.head? = some '0' && 1 < digits.length then none
  else if max < value then none
  else some (value, s.drop digits.length)

/-- The separator stands before each item but the first. -/
def readSeparator {α : Type} (sep : Char) (index : Nat) (inner : Str → Option (α × Str)) (s : Str) : Option (α × Str) :=
  if 0 < index then (readGivenChar sep s).bind inner else inner s

/-- The loop of `read_ipv4_addr`, from the `i`-th octet on. -/
def readOctets : Nat → Nat → Str → Option (List UInt8 × Str)
  | 0, _, s => some ([], s)
  | left + 1, i, s =>
    match readSeparator '.' i (readNumber 10 (some 3) false 255) s with
    | none => none
    | some (n, s) => (readOctets left (i + 1) s).map fun (ns, s) => (.ofNat n :: ns, s)

def readIpv4Addr (s : Str) : Option (List UInt8 × Str) := readOctets 4 0 s

/-- Two octets of an embedded address of version 4. -/
def segment (high low : UInt8) : UInt16 := .ofNat (high.toNat * 256 + low.toNat)

/-- `read_groups`, from the `i`-th group on: the groups, and whether the last two are an embedded address. -/
def readGroups : Nat → Nat → Str → List UInt16 × Bool × Str
  | 0, _, s => ([], false, s)
  | left + 1, i, s =>
    match if 0 < left then readSeparator ':' i readIpv4Addr s else none with
    | some ([one, two, three, four], s) => ([segment one two, segment three four], true, s)
    | _ =>
      match readSeparator ':' i (readNumber 16 (some 4) true 0xFFFF) s with
      | some (g, s) =>
        let (gs, ipv4, s) := readGroups left (i + 1) s
        (.ofNat g :: gs, ipv4, s)
      | none => ([], false, s)

def readIpv6Addr (s : Str) : Option (List UInt16 × Str) :=
  let (head, headIpv4, s) := readGroups 8 0 s
  if head.length = 8 then some (head, s)
  else if headIpv4 then none
  else
    match s with
    | ':' :: ':' :: s =>
      let (tail, _, s) := readGroups (8 - (head.length + 1)) 0 s
      some (head ++ List.replicate (8 - head.length - tail.length) 0 ++ tail, s)
    | _ => none

def readPort (s : Str) : Option (Nat × Str) := (readGivenChar ':' s).bind (readNumber 10 none true 0xFFFF)

def readScopeId (s : Str) : Option (Nat × Str) := (readGivenChar '%' s).bind (readNumber 10 none true 0xFFFFFFFF)

def readSocketAddrV4 (s : Str) : Option (SocketAddr × Str) := do
  let (octets, s) ← readIpv4Addr s
  let (port, s) ← readPort s
  return (.v4 octets (.ofNat port), s)

def readSocketAddrV6 (s : Str) : Option (SocketAddr × Str) := do
  let s ← readGivenChar '[' s
  let (segments, s) ← readIpv6Addr s
  let (scopeId, s) := (readScopeId s).getD (0, s)
  let s ← readGivenChar ']' s
  let (port, s) ← readPort s
  return (.v6 segments (.ofNat port) (.ofNat scopeId), s)

/-- `str::parse::<SocketAddr>`; nothing may be left over. -/
def parse (s : Str) : Option SocketAddr :=
  match (readSocketAddrV4 s).orElse fun _ => readSocketAddrV6 s with
  | some (addr, []) => some addr
  | _ => none

/-- `AddrParseError` -/
def syntaxError : String := "invalid socket address syntax"

example : parse "127.0.0.1:8080".toList = some (.v4 [127, 0, 0, 1] 8080) := by decide

example : parse "[fe80::1:1.2.3.4%7]:80".toList = some (.v6 [0xFE80, 0, 0, 0, 0, 1, 0x102, 0x304] 80 7) := by decide

/-! ## What a text starts with -/

/-- What stands behind a number: nothing, or something that is no digit. -/
def EndsNumber (radix : Nat) (rest : Str) : Prop := ∀ c, rest.head? = some c → toDigit radix c = none

theorem readNumber_none {radix : Nat} {maxDigits : Option Nat} {allowZeroPrefix : Bool} {max : Nat} {s : Str}
    (h : EndsNumber radix s) : readNumber radix maxDigits allowZeroPrefix max s = none := by
  have hdigits : s.takeWhile (fun c => (toDigit radix c).isSome) = [] := by
    cases s with
    | nil => rfl
    | cons c s => simp [h c rfl]
  simp [readNumber, hdigits]

/-- An address of version 4 starts with a digit. -/
theorem readIpv4Addr_none {s : Str} (h : EndsNumber 10 s) : readIpv4Addr s = none := by
  simp [readIpv4Addr, readOctets, readSeparator, readNumber_none h]

theorem readSocketAddrV4_none {s : Str} (h : EndsNumber 10 s) : readSocketAddrV4 s = none := by
  rw [readSocketAddrV4, readIpv4Addr_none h]
  rfl

/-- An address of version 6 starts with a bracket. -/
theorem head_of_readSocketAddrV6 {s : Str} {r : SocketAddr × Str} (h : readSocketAddrV6 s = some r) :
    s.head? = some '[' := by
  cases s with
  | nil => cases h
  | cons c s =>
    by_cases hc : c = '['
    · rw [hc, List.head?_cons]
    · simp [readSocketAddrV6, readGivenChar, hc] at h

theorem isIpv4_of_readSocketAddrV4 {s rest : Str} {a : SocketAddr} (h : readSocketAddrV4 s = some (a, rest)) :
    a.isIpv4 = true := by
  obtain ⟨octets, -, h⟩ := Option.bind_eq_some_iff.mp h
  obtain ⟨port, -, h⟩ := Option.bind_eq_some_iff.mp h
  cases h
  rfl

theorem isIpv4_of_readSocketAddrV6 {s rest : Str} {a : SocketAddr} (h : readSocketAddrV6 s = some (a, rest)) :
    a.isIpv4 = false := by
  obtain ⟨s₁, -, h⟩ := Option.bind_eq_some_iff.mp h
  obtain ⟨segments, -, h⟩ := Option.bind_eq_some_iff.mp h
  obtain ⟨s₂, -, h⟩ := Option.bind_eq_some_iff.mp h
  obtain ⟨port, -, h⟩ := Option.bind_eq_some_iff.mp h
  cases h
  rfl

/-- The second reader is tried where the first one fails. -/
theorem parse_cases {s : Str} {a : SocketAddr} (h : parse s = some a) :
    readSocketAddrV4 s = some (a, []) ∨ readSocketAddrV4 s = none ∧ readSocketAddrV6 s = some (a, []) := by
  unfold parse at h
  cases h4 : readSocketAddrV4 s with
  | some r =>
    obtain ⟨b, rest⟩ := r
    rw [h4] at h
    cases rest with
    | nil => exact Or.inl (by cases h; rfl)
    | cons c rest => cases h
  | none =>
    rw [h4] at h
    cases h6 : readSocketAddrV6 s with
    | none =>
      rw [h6] at h
      cases h
    | some r =>
      obtain ⟨b, rest⟩ := r
      rw [h6] at h
      cases rest with
      | nil => exact Or.inr ⟨rfl, by cases h; rfl⟩
      | cons c rest => cases h

/-- What is accepted starts with a digit, and is of version 4, or with a bracket, and is of version 6. -/
theorem head_of_parse {s : Str} {a : SocketAddr} (h : parse s = some a) :
    (∃ c, s.head? = some c ∧ (toDigit 10 c).isSome = true ∧ a.isIpv4 = true) ∨
      s.head? = some '[' ∧ a.isIpv4 = false := by
  rcases parse_cases h with h4 | ⟨-, h6⟩
  · refine Or.inl ?_
    by_contra hno
    have hnone := readSocketAddrV4_none (s := s) fun c hc => by
      by_contra hdigit
      exact hno ⟨c, hc, Option.isSome_iff_ne_none.mpr hdigit, isIpv4_of_readSocketAddrV4 h4⟩
    rw [hnone] at h4
    cases h4
  · exact Or.inr ⟨head_of_readSocketAddrV6 h6, isIpv4_of_readSocketAddrV6 h6⟩

/-- An address is of version 4 if and only if its text does not start with a bracket. -/
theorem isIpv4_of_parse {s : Str} {a : SocketAddr} (h : parse s = some a) : a.isIpv4 = true ↔ s.head? ≠ some '[' := by
  rcases head_of_parse h with ⟨c, hc, hdigit, ha⟩ | ⟨hc, ha⟩
  · refine ⟨fun _ hbracket => ?_, fun _ => ha⟩
    rw [Option.some.inj (hc.symm.trans hbracket)] at hdigit
    exact absurd hdigit (by decide)
  · rw [ha]
    exact ⟨fun hf => absurd hf (by decide), fun hno => absurd hc hno⟩

/-- A text that is accepted is not empty and does not start with a colon. -/
theorem ne_colon_of_parse {s : Str} {a : SocketAddr} (h : parse s = some a) : s ≠ [] ∧ s.head? ≠ some ':' := by
  rcases head_of_parse h with ⟨c, hc, hdigit, -⟩ | ⟨hc, -⟩
  · refine ⟨fun hnil => by simp [hnil] at hc, fun hcolon => ?_⟩
    rw [Option.some.inj (hc.symm.trans hcolon)] at hdigit
    exact absurd hdigit (by decide)
  · refine ⟨fun hnil => by simp [hnil] at hc, fun hcolon => ?_⟩
    exact absurd (hc.symm.trans hcolon) (by decide)

end Rnet.Net
