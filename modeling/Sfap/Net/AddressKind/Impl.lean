import Sfap.Error
import Sfap.Lib.Pieces
import Sfap.Net.Types
import Sfap.Utils.String.CStr

/-!
This module contains the detection of the kind of a textual address.
-/

namespace Sfap

namespace Net

def dot : Byte := 46

def hyphen : Byte := 45

-- `"xn--"`
def xn : List Byte := [120, 110, 45, 45]

-- `std::isalpha` in the "C" locale
def isAlpha (c : Byte) : Bool :=
  (65 ≤ c && c ≤ 90) || (97 ≤ c && c ≤ 122)

def isAlnumHyph (c : Byte) : Bool :=
  isAlpha c || (48 ≤ c && c ≤ 57) || c == hyphen

-- `none` if an index is outside of `s`
def checkLabel (s : List Byte) (start len : Nat) : Option Bool :=
  if len == 0 || len > 63 then
    some false
  else
    match s[start]? with
    | none => none
    | some first =>
      if first == hyphen then
        some false
      else
        match s[start + len - 1]? with
        | none => none
        | some last => if last == hyphen then some false else Pieces.allFrom isAlnumHyph s start len

structure Scan where
  labelStart : Nat
  labelLen : Nat
  labels : Nat

-- the loop with `left` iterations to go, `some none` if it has returned `false`
def scanFrom (s : List Byte) (i : Nat) (scan : Scan) : Nat → Option (Option Scan)
  | 0 => some (some scan)
  | left + 1 =>
    match s[i]? with
    | none => none
    | some c =>
      if c == dot then
        match checkLabel s scan.labelStart scan.labelLen with
        | none => none
        | some false => some none
        | some true => scanFrom s (i + 1) ⟨i + 1, 0, scan.labels + 1⟩ left
      else
        scanFrom s (i + 1) { scan with labelLen := scan.labelLen + 1 } left

def checkTld (tld : List Byte) : Option Bool :=
  let puny := xn.isPrefixOf tld
  if puny then
    if tld.length < 5 || tld.length > 63 then
      some false
    else
      Pieces.allFrom isAlnumHyph tld 4 (tld.length - 4)
  else
    if tld.length < 2 || tld.length > 63 then some false else some (tld.all isAlpha)

-- no position is larger than 254
def isFqdn (s : List Byte) : Option Bool :=
  match s.getLast? with
  | none => some false
  | some back =>
    let trailingDot := back == dot
    if (!trailingDot && s.length > 253) || (trailingDot && s.length > 254) then
      some false
    else
      match scanFrom s 0 ⟨0, 0, 0⟩ s.length with
      | none => none
      | some none => some false
      | some (some scan) =>
        if trailingDot then
          some (scan.labels ≥ 1)
        else
          match checkLabel s scan.labelStart scan.labelLen with
          | none => none
          | some false => some false
          | some true =>
            let labels := scan.labels + 1
            if labels < 1 then
              some false
            -- `substr` throws
            else if scan.labelStart > s.length then
              none
            else
              checkTld (Pieces.slice s scan.labelStart scan.labelLen)

/--
What `inet_pton` returns for `AF_INET` and for `AF_INET6`, with the `errno` it leaves.
-/
structure InetPton where
  ip4 : List Byte → Int32 × Int32
  ip6 : List Byte → Int32 × Int32

def detectAddressKind (pton : InetPton) (address : Option CString)
    : Option (Except ErrorCode AddressKind) :=
  match address with
  | none => some (.ok .empty)
  | some address =>
    let addressSize := address.strlen
    if addressSize == 0 then
      some (.ok .empty)
    else if addressSize > 254 then
      some (.ok .unknown)
    else
      let s := address.chars.bytes
      let (result, errno) := pton.ip4 s
      if result == 1 then
        some (.ok .ip4)
      else if result == -1 then
        some (.error (.networkError errno))
      else
        let (result, errno) := pton.ip6 s
        if result == 1 then
          some (.ok .ip6)
        else if result == -1 then
          some (.error (.networkError errno))
        else
          match isFqdn s with
          | none => none
          | some true => some (.ok .hostname)
          | some false => some (.ok .unknown)

-- for a `String`, through `c_str()`
def detectAddressKindString (pton : InetPton) (heap : Heap) (address : String)
    : Option (Except ErrorCode AddressKind) :=
  match address.cStr.read heap with
  | none => none
  | some address => detectAddressKind pton address

end Net

end Sfap
