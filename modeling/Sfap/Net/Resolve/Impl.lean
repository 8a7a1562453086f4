import Sfap.Error
import Sfap.Lib.EarlyExit
import Sfap.Net.Types
import Sfap.Utils.String.CStr

/-!
This module contains the hostname resolver.
-/

namespace Sfap

namespace Net

inductive ResolveMode where
  | requireIpv4
  | preferIpv4
  | requireIpv6
  | preferIpv6
  deriving DecidableEq, Repr

def afUnspec : Int32 := 0

def afInet : Int32 := 2

def afInet6 : Int32 := 10

def sockStream : Int32 := 1

def eaiNoname : Int32 := -2

/--
An entry of the list of `getaddrinfo`: `ai_family`, and the bytes behind `ai_addr`, which are a `sockaddr_in` or
a `sockaddr_in6` where the family says so.
-/
structure AddrInfo where
  family : Int32
  addr : List UInt8
  inet : family = afInet → 16 ≤ addr.length
  inet6 : family = afInet6 → 28 ≤ addr.length

structure Hints where
  socktype : Int32
  flags : Int32
  family : Int32
  deriving DecidableEq, Repr

-- what it returns, and the list that it stores where that is 0
abbrev GetAddrInfo := List Byte → Hints → Int32 × List AddrInfo

def resolveError (code : Int32) : ErrorCode :=
  ⟨code, some (.static .resolve)⟩

namespace Resolve

-- `memcpy` from `offset` on
def bytesAt (addr : List UInt8) (offset n : Nat) (h : offset + n ≤ addr.length) : Vector UInt8 n :=
  ⟨((addr.drop offset).take n).toArray, by
    rw [List.size_toArray, List.length_take, List.length_drop]
    omega⟩

def sinAddr (info : AddrInfo) (h : info.family = afInet) : Ip4 :=
  bytesAt info.addr 4 4 (by have := info.inet h; omega)

def sin6Addr (info : AddrInfo) (h : info.family = afInet6) : Ip6 :=
  bytesAt info.addr 8 16 (by have := info.inet6 h; omega)

structure Found where
  ipv4 : Option Ip4
  ipv6 : Option Ip6

def Found.both (found : Found) : Bool :=
  found.ipv4.isSome && found.ipv6.isSome

-- one iteration, with whether a `break` ends the loop
def visit (mode : ResolveMode) (found : Found) (info : AddrInfo) : Found × Bool :=
  if h : info.family = afInet ∧ found.ipv4 = none then
    let found := { found with ipv4 := some (sinAddr info h.1) }
    if mode == .preferIpv4 || mode == .requireIpv4 then (found, true) else (found, found.both)
  else if h : info.family = afInet6 ∧ found.ipv6 = none then
    let found := { found with ipv6 := some (sin6Addr info h.1) }
    if mode == .preferIpv6 || mode == .requireIpv6 then (found, true) else (found, found.both)
  else
    (found, found.both)

def scan (mode : ResolveMode) (infos : List AddrInfo) : Found :=
  EarlyExit.foldUntil (visit mode) ⟨none, none⟩ infos

def select (mode : ResolveMode) (found : Found) : Except ErrorCode Ipx :=
  match mode with
  | .requireIpv4 =>
    match found.ipv4 with
    | none => .error (resolveError eaiNoname)
    | some ip => .ok (.v4 ip)
  | .requireIpv6 =>
    match found.ipv6 with
    | none => .error (resolveError eaiNoname)
    | some ip => .ok (.v6 ip)
  | .preferIpv4 =>
    match found.ipv4, found.ipv6 with
    | some ip, _ => .ok (.v4 ip)
    | none, some ip => .ok (.v6 ip)
    | none, none => .error (resolveError eaiNoname)
  | .preferIpv6 =>
    match found.ipv6, found.ipv4 with
    | some ip, _ => .ok (.v6 ip)
    | none, some ip => .ok (.v4 ip)
    | none, none => .error (resolveError eaiNoname)

def hints (mode : ResolveMode) : Hints :=
  match mode with
  | .requireIpv4 => ⟨sockStream, 0, afInet⟩
  | .requireIpv6 => ⟨sockStream, 0, afInet6⟩
  | .preferIpv6 | .preferIpv4 => ⟨sockStream, 0, afUnspec⟩

end Resolve

open Resolve in
def resolve (getaddrinfo : GetAddrInfo) (address : Option CString) (mode : ResolveMode)
    : Except ErrorCode Ipx :=
  match address with
  | none => .error (resolveError eaiNoname)
  | some address =>
    let (resultCode, infos) := getaddrinfo address.chars.bytes (hints mode)
    if resultCode != 0 then
      .error (.genericError .invalidArgument)
    else
      select mode (scan mode infos)

-- for a `String`, through `c_str()`
def resolveString (getaddrinfo : GetAddrInfo) (heap : Heap) (address : String) (mode : ResolveMode)
    : Option (Except ErrorCode Ipx) :=
  match address.cStr.read heap with
  | none => none
  | some address => some (resolve getaddrinfo address mode)

end Net

end Sfap
