import Rnet.AddrDisplay
import Rnet.Lib.Splits

/-!
# Network addresses

`socket_addr.rs`: `from_str` splits at the first `://`, and prints what it parsed as `tcp://` or `unix://`. The text
that is printed is accepted again and means the same address (`address_round_trips`), also where the body of a path
holds another `://`.

The scheme of a `tcp` address is not looked at again. So `tcp4` and `tcp6` are families only where the body is written
in that family (`scheme_fixes_family_iff`), and an address without a host is of version 4 under either.
-/

namespace Rnet.Address

open Net Splits

inductive NetworkAddress
  | tcp (addr : SocketAddr)
  | unix (path : Str)
  deriving DecidableEq, Repr

/-- `Error::new(ErrorKind::InvalidInput, message)` -/
structure InvalidInput where
  message : String
  deriving DecidableEq, Repr

def separator : Str := "://".toList

/-- The text that is parsed for a body, with a host in any case. -/
def addrStr (body : Str) : Str := if body.head? = some ':' then "0.0.0.0".toList ++ body else body

/-- `NetworkAddress::from_str` -/
def fromStr (s : Str) : Except InvalidInput NetworkAddress :=
  match splitOnce separator s with
  | none => .error ⟨"missing '://' separator"⟩
  | some (protoStr, body) =>
    if body = [] then .error ⟨"address body cannot be empty"⟩
    else if protoStr = "tcp".toList ∨ protoStr = "tcp4".toList ∨ protoStr = "tcp6".toList then
      match parse (addrStr body) with
      | none => .error ⟨"invalid tcp address: " ++ syntaxError⟩
      | some addr => .ok (.tcp addr)
    else if protoStr = "unix".toList then .ok (.unix body)
    else .error ⟨"unsupported protocol: " ++ .ofList protoStr⟩

/-- `Display`, with that of the standard library's addresses. -/
def NetworkAddress.display (displayAddr : SocketAddr → Str) : NetworkAddress → Str
  | .tcp addr => "tcp".toList ++ separator ++ displayAddr addr
  | .unix path => "unix".toList ++ separator ++ path

/-! ## Accepted texts -/

/-- What is accepted: a scheme and a body that is not empty. -/
theorem fromStr_ok {s : Str} {addr : NetworkAddress} (h : fromStr s = .ok addr) :
    ∃ proto body, splitOnce separator s = some (proto, body) ∧ body ≠ [] ∧
      ((proto = "tcp".toList ∨ proto = "tcp4".toList ∨ proto = "tcp6".toList) ∧
          (∃ a, parse (addrStr body) = some a ∧ addr = .tcp a) ∨
        proto = "unix".toList ∧ addr = .unix body) := by
  unfold fromStr at h
  cases hs : splitOnce separator s with
  | none =>
    rw [hs] at h
    cases h
  | some parts =>
    obtain ⟨proto, body⟩ := parts
    simp only [hs] at h
    refine ⟨proto, body, rfl, ?_⟩
    split at h
    · cases h
    rename_i hbody
    refine ⟨hbody, ?_⟩
    split at h
    · rename_i htcp
      cases hp : parse (addrStr body) with
      | none =>
        rw [hp] at h
        cases h
      | some a =>
        rw [hp] at h
        exact Or.inl ⟨htcp, a, rfl, (Except.ok.inj h).symm⟩
    split at h
    · rename_i hunix
      exact Or.inr ⟨hunix, (Except.ok.inj h).symm⟩
    · cases h

/-- A scheme without a colon is split off as it is. -/
theorem splitOnce_scheme {proto : Str} (hproto : ':' ∉ proto) (body : Str) :
    splitOnce separator (proto ++ separator ++ body) = some (proto, body) := splitOnce_append hproto body

theorem fromStr_tcp {body : Str} (hbody : body ≠ []) {a : SocketAddr} (ha : parse (addrStr body) = some a) :
    fromStr ("tcp".toList ++ separator ++ body) = .ok (.tcp a) := by
  rw [fromStr, splitOnce_scheme (by decide)]
  simp [hbody, ha]

theorem fromStr_unix {path : Str} (hpath : path ≠ []) :
    fromStr ("unix".toList ++ separator ++ path) = .ok (.unix path) := by
  rw [fromStr, splitOnce_scheme (by decide)]
  simp [hpath]

/-- **What is printed is accepted again**, and means the same address; so printing what was parsed changes nothing the
second time. -/
theorem address_round_trips {displayAddr : SocketAddr → Str}
    (hinverse : ∀ s a, parse s = some a → parse (displayAddr a) = some a) {s : Str} {addr : NetworkAddress}
    (h : fromStr s = .ok addr) :
    fromStr (addr.display displayAddr) = .ok addr ∧
      ∀ addr', fromStr (addr.display displayAddr) = .ok addr' →
        addr'.display displayAddr = addr.display displayAddr := by
  have hback : fromStr (addr.display displayAddr) = .ok addr := by
    obtain ⟨proto, body, -, hbody, ⟨-, a, ha, rfl⟩ | ⟨-, rfl⟩⟩ := fromStr_ok h
    · have hdisplay := hinverse _ a ha
      obtain ⟨hne, hcolon⟩ := ne_colon_of_parse hdisplay
      refine fromStr_tcp hne ?_
      rw [addrStr, if_neg hcolon, hdisplay]
    · exact fromStr_unix hbody
  refine ⟨hback, fun addr' h' => ?_⟩
  rw [Except.ok.inj (hback.symm.trans h')]

/-- Without a host, with the scheme `tcp4`: both are printed otherwise than they were read. -/
theorem address_round_trips_hostless :
    (NetworkAddress.tcp (.v4 [0, 0, 0, 0] 8080)).display displayAddr = "tcp://0.0.0.0:8080".toList ∧
      fromStr ((NetworkAddress.tcp (.v4 [0, 0, 0, 0] 8080)).display displayAddr) =
        .ok (.tcp (.v4 [0, 0, 0, 0] 8080)) :=
  ⟨by decide, (address_round_trips (fun _ _ h => parse_displayAddr h)
    (show fromStr "tcp4://:8080".toList = .ok (.tcp (.v4 [0, 0, 0, 0] 8080)) by decide)).1⟩

/-! ## Families -/

/-- What the system answers `local_addr` on a socket bound to an address: an address of the same family. -/
structure System where
  localAddr : SocketAddr → SocketAddr
  sameFamily : ∀ a, (localAddr a).isIpv4 = a.isIpv4

structure Listener where
  addr : NetworkAddress

/-- `Listener::bind`, where it succeeds. -/
def Listener.bind (sys : System) : NetworkAddress → Listener
  | .tcp addr => ⟨.tcp (sys.localAddr addr)⟩
  | .unix path => ⟨.unix path⟩

def Listener.network (l : Listener) : Str :=
  match l.addr with
  | .tcp addr => if addr.isIpv4 then "tcp4".toList else "tcp6".toList
  | .unix _ => "unix".toList

/-- The scheme names a family, the address is of that family, and a listener bound to it says so. -/
structure FixesFamily (sys : System) (proto : Str) (addr : NetworkAddress) : Prop where
  tcp4 : proto = "tcp4".toList → ∃ a, addr = .tcp a ∧ a.isIpv4 = true
  tcp6 : proto = "tcp6".toList → ∃ a, addr = .tcp a ∧ a.isIpv4 = false
  network : proto = "tcp4".toList ∨ proto = "tcp6".toList → (Listener.bind sys addr).network = proto

/-- The body is written in the family that the scheme names. -/
def WrittenInFamily (proto body : Str) : Prop :=
  (proto = "tcp4".toList → body.head? ≠ some '[') ∧ (proto = "tcp6".toList → body.head? = some '[')

/-- Without a host it is the host of version 4. -/
theorem head_addrStr (body : Str) : (addrStr body).head? = some '[' ↔ body.head? = some '[' := by
  unfold addrStr
  split
  · rename_i h
    have hzero : ("0.0.0.0".toList ++ body).head? = some '0' := rfl
    rw [h, hzero]
    exact ⟨fun h => absurd h (by decide), fun h => absurd h (by decide)⟩
  · rfl

theorem network_bind (sys : System) (a : SocketAddr) :
    (Listener.bind sys (.tcp a)).network = if a.isIpv4 then "tcp4".toList else "tcp6".toList := by
  rw [Listener.bind, Listener.network]
  simp only [sys.sameFamily]

/-- **The scheme fixes the family exactly where the body is written in it.** -/
theorem scheme_fixes_family_iff (sys : System) {s : Str} {addr : NetworkAddress} (h : fromStr s = .ok addr) :
    (∀ proto body, splitOnce separator s = some (proto, body) → FixesFamily sys proto addr) ↔
      ∀ proto body, splitOnce separator s = some (proto, body) → WrittenInFamily proto body := by
  obtain ⟨proto, body, hs, -, ⟨-, a, ha, rfl⟩ | ⟨rfl, rfl⟩⟩ := fromStr_ok h
  · have hfamily : a.isIpv4 = true ↔ body.head? ≠ some '[' := by
      rw [isIpv4_of_parse ha, ne_eq, head_addrStr]
    suffices hiff : FixesFamily sys proto (.tcp a) ↔ WrittenInFamily proto body by
      rw [hs]
      constructor
      · rintro hall _ _ ⟨⟩
        exact hiff.mp (hall proto body rfl)
      · rintro hall _ _ ⟨⟩
        exact hiff.mpr (hall proto body rfl)
    constructor
    · intro hf
      refine ⟨fun h4 => ?_, fun h6 => ?_⟩
      · obtain ⟨a', ⟨⟩, ha'⟩ := hf.tcp4 h4
        exact hfamily.mp ha'
      · obtain ⟨a', ⟨⟩, ha'⟩ := hf.tcp6 h6
        by_contra hno
        rw [hfamily.mpr hno] at ha'
        cases ha'
    · rintro ⟨h4, h6⟩
      have hv4 : proto = "tcp4".toList → a.isIpv4 = true := fun hp => hfamily.mpr (h4 hp)
      have hv6 : proto = "tcp6".toList → a.isIpv4 = false := fun hp =>
        Bool.eq_false_iff.mpr fun ht => hfamily.mp ht (h6 hp)
      refine ⟨fun hp => ⟨a, rfl, hv4 hp⟩, fun hp => ⟨a, rfl, hv6 hp⟩, ?_⟩
      rintro (hp | hp)
      · rw [network_bind, hv4 hp, hp]
        rfl
      · rw [network_bind, hv6 hp, hp]
        rfl
  · -- a path has neither scheme
    have hne : ∀ p : Str, ∀ b, splitOnce separator s = some (p, b) → p = "unix".toList := by
      intro p b hp
      rw [hs] at hp
      cases hp
      rfl
    constructor
    · intro _ p b hp
      rw [hne p b hp]
      exact ⟨fun h4 => absurd h4 (by decide), fun h6 => absurd h6 (by decide)⟩
    · intro _ p b hp
      rw [hne p b hp]
      exact ⟨fun h4 => absurd h4 (by decide), fun h6 => absurd h6 (by decide),
        fun h46 => absurd h46 (by decide)⟩

/-- A system that answers the address a socket was bound to. -/
def System.plain : System := ⟨id, fun _ => rfl⟩

theorem scheme_fixes_family_tcp6 :
    FixesFamily .plain "tcp6".toList (.tcp (.v6 [0, 0, 0, 0, 0, 0, 0, 1] 9000 0)) := by
  have h : fromStr "tcp6://[::1]:9000".toList = .ok (.tcp (.v6 [0, 0, 0, 0, 0, 0, 0, 1] 9000 0)) := by decide
  have hs : splitOnce separator "tcp6://[::1]:9000".toList = some ("tcp6".toList, "[::1]:9000".toList) := by decide
  refine (scheme_fixes_family_iff .plain h).mpr (fun proto body hsplit => ?_) _ _ hs
  rw [hs] at hsplit
  cases hsplit
  exact ⟨fun h4 => absurd h4 (by decide), fun _ => by decide⟩

/-- Under `tcp6`, an address without a host is of version 4, and a listener bound to it calls itself `tcp4`. -/
theorem tcp6_without_host : fromStr "tcp6://:8080".toList = .ok (.tcp (.v4 [0, 0, 0, 0] 8080)) ∧
    (Listener.bind .plain (.tcp (.v4 [0, 0, 0, 0] 8080))).network = "tcp4".toList ∧
    ¬ ∀ proto body, splitOnce separator "tcp6://:8080".toList = some (proto, body) →
      FixesFamily .plain proto (.tcp (.v4 [0, 0, 0, 0] 8080)) := by
  refine ⟨by decide, by decide, fun hall => ?_⟩
  obtain ⟨a, ⟨⟩, hfalse⟩ := (hall "tcp6".toList ":8080".toList (by decide)).tcp6 rfl
  cases hfalse

end Rnet.Address
