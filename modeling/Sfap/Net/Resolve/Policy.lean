import Sfap.Net.Resolve.Impl

/-!
This module contains which entry of its list the resolver picks.
-/

namespace Sfap

namespace Net

namespace Resolve

def choose (mode : ResolveMode) (infos : List AddrInfo) : Option AddrInfo :=
  let first4 := infos.find? fun info => info.family == afInet
  let first6 := infos.find? fun info => info.family == afInet6
  match mode with
  | .requireIpv4 => first4
  | .preferIpv4 => first4.or first6
  | .requireIpv6 => first6
  | .preferIpv6 => first6.or first4

def Holds (info : AddrInfo) : Ipx → Prop
  | .v4 ip => info.family = afInet ∧ ip.toList = (info.addr.drop 4).take 4
  | .v6 ip => info.family = afInet6 ∧ ip.toList = (info.addr.drop 8).take 16

def ip4? (info : AddrInfo) : Option Ip4 :=
  if h : info.family = afInet then some (sinAddr info h) else none

def ip6? (info : AddrInfo) : Option Ip6 :=
  if h : info.family = afInet6 then some (sin6Addr info h) else none

def Settled (mode : ResolveMode) (found : Found) : Prop :=
  match mode with
  | .requireIpv4 | .preferIpv4 => found.ipv4.isSome = true
  | .requireIpv6 | .preferIpv6 => found.ipv6.isSome = true

variable {mode : ResolveMode} {found : Found} {info : AddrInfo} {infos : List AddrInfo}

theorem visit_cases (mode : ResolveMode) (found : Found) (info : AddrInfo)
    : (∃ h : info.family = afInet, found.ipv4 = none
        ∧ (visit mode found info).1 = { found with ipv4 := some (sinAddr info h) })
        ∨
      (∃ h : info.family = afInet6, found.ipv6 = none
        ∧ (visit mode found info).1 = { found with ipv6 := some (sin6Addr info h) })
        ∨
      ((info.family = afInet → found.ipv4 ≠ none) ∧ (info.family = afInet6 → found.ipv6 ≠ none)
        ∧ (visit mode found info).1 = found) := by
  unfold visit
  split
  . next h =>
    refine .inl ⟨h.1, h.2, ?_⟩
    dsimp only
    split <;> rfl
  . next h4 =>
    split
    . next h =>
      refine .inr (.inl ⟨h.1, h.2, ?_⟩)
      dsimp only
      split <;> rfl
    . next h6 =>
      exact .inr (.inr ⟨fun h hnone => h4 ⟨h, hnone⟩, fun h hnone => h6 ⟨h, hnone⟩, rfl⟩)

theorem or_of_found {α : Type} {x : Option α} {p : Prop} [Decidable p] (ip : p → α) (h : p → x ≠ none)
    : x = x.or (if hp : p then some (ip hp) else none) := by
  split
  . next hp =>
    rcases Option.ne_none_iff_exists'.mp (h hp) with ⟨y, hy⟩
    rw [hy]
    rfl
  . rw [Option.or_none]

theorem ipv4_visit (mode : ResolveMode) (found : Found) (info : AddrInfo)
    : (visit mode found info).1.ipv4 = found.ipv4.or (ip4? info) := by
  unfold ip4?
  rcases visit_cases mode found info with ⟨h, hnone, heq⟩ | ⟨h, _, heq⟩ | ⟨h4, _, heq⟩
  . rw [heq, dif_pos h, hnone]
    rfl
  . rw [heq, dif_neg (by rw [h]; decide), Option.or_none]
  . rw [heq]
    exact or_of_found _ h4

theorem ipv6_visit (mode : ResolveMode) (found : Found) (info : AddrInfo)
    : (visit mode found info).1.ipv6 = found.ipv6.or (ip6? info) := by
  unfold ip6?
  rcases visit_cases mode found info with ⟨h, _, heq⟩ | ⟨h, hnone, heq⟩ | ⟨_, h6, heq⟩
  . rw [heq, dif_neg (by rw [h]; decide), Option.or_none]
  . rw [heq, dif_pos h, hnone]
    rfl
  . rw [heq]
    exact or_of_found _ h6

theorem foldAll_visit (mode : ResolveMode) (infos : List AddrInfo)
    : EarlyExit.foldAll (visit mode) ⟨none, none⟩ infos
        =
      ⟨infos.findSome? ip4?, infos.findSome? ip6?⟩ := by
  have h4 := EarlyExit.see_foldAll_or (ipv4_visit mode) ⟨none, none⟩ infos
  have h6 := EarlyExit.see_foldAll_or (ipv6_visit mode) ⟨none, none⟩ infos
  rw [Option.none_or] at h4 h6
  rw [← h4, ← h6]

theorem settled_visit_of_stop (h : (visit mode found info).2 = true)
    : Settled mode (visit mode found info).1 := by
  have hboth : ∀ found : Found, found.both = true → Settled mode found := by
    intro found hfound
    unfold Found.both at hfound
    rw [Bool.and_eq_true] at hfound
    unfold Settled
    cases mode with
    | requireIpv4 | preferIpv4 => exact hfound.1
    | requireIpv6 | preferIpv6 => exact hfound.2
  unfold visit at h ⊢
  split
  . next h4 =>
    rw [dif_pos h4] at h
    cases mode with
    | requireIpv4 | preferIpv4 => rfl
    | requireIpv6 | preferIpv6 => exact hboth _ h
  . next h4 =>
    rw [dif_neg h4] at h
    split
    . next h6 =>
      rw [dif_pos h6] at h
      cases mode with
      | requireIpv4 | preferIpv4 => exact hboth _ h
      | requireIpv6 | preferIpv6 => rfl
    . next h6 =>
      rw [dif_neg h6] at h
      exact hboth _ h

theorem settled_visit (info : AddrInfo) (h : Settled mode found) : Settled mode (visit mode found info).1 := by
  unfold Settled at h ⊢
  rw [ipv4_visit, ipv6_visit]
  cases mode with
  | requireIpv4 | preferIpv4 | requireIpv6 | preferIpv6 =>
    dsimp only at h ⊢
    rw [Option.isSome_or, h]
    rfl

theorem select_visit (info : AddrInfo) (h : Settled mode found)
    : select mode (visit mode found info).1 = select mode found := by
  have hkept : ∀ {α : Type} {x y : Option α}, x.isSome = true → x.or y = x := by
    intro α x y hx
    cases x with
    | none => simp at hx
    | some ip => rfl
  unfold Settled at h
  unfold select
  cases mode with
  | requireIpv4 => rw [ipv4_visit, hkept h]
  | requireIpv6 => rw [ipv6_visit, hkept h]
  | preferIpv4 =>
    rw [ipv4_visit, hkept h]
    cases hip : found.ipv4 with
    | none => simp [hip] at h
    | some ip => rfl
  | preferIpv6 =>
    rw [ipv6_visit, hkept h]
    cases hip : found.ipv6 with
    | none => simp [hip] at h
    | some ip => rfl

theorem settles (mode : ResolveMode) : EarlyExit.Settles (visit mode) (select mode) (Settled mode) where
  stop _ _ h := settled_visit_of_stop h
  step _ info h := settled_visit info h
  see _ info h := select_visit info h

theorem select_scan (mode : ResolveMode) (infos : List AddrInfo)
    : select mode (scan mode infos) = select mode ⟨infos.findSome? ip4?, infos.findSome? ip6?⟩ := by
  unfold scan
  rw [(settles mode).see_foldUntil, foldAll_visit]

theorem toList_bytesAt (addr : List UInt8) (offset n : Nat) (h : offset + n ≤ addr.length)
    : (bytesAt addr offset n h).toList = (addr.drop offset).take n := by
  rfl

theorem holds_v4_iff (ip : Ip4) : Holds info (.v4 ip) ↔ ip4? info = some ip := by
  unfold Holds ip4?
  dsimp only
  split
  . next h =>
    rw [Option.some.injEq, ← Vector.toList_inj, eq_comm (b := ip.toList)]
    unfold sinAddr
    rw [toList_bytesAt]
    simp [h]
  . next h => simp [h]

theorem holds_v6_iff (ip : Ip6) : Holds info (.v6 ip) ↔ ip6? info = some ip := by
  unfold Holds ip6?
  dsimp only
  split
  . next h =>
    rw [Option.some.injEq, ← Vector.toList_inj, eq_comm (b := ip.toList)]
    unfold sin6Addr
    rw [toList_bytesAt]
    simp [h]
  . next h => simp [h]

theorem isSome_ip4? (info : AddrInfo) : (info.family == afInet) = (ip4? info).isSome := by
  unfold ip4?
  split <;> simp_all

theorem isSome_ip6? (info : AddrInfo) : (info.family == afInet6) = (ip6? info).isSome := by
  unfold ip6?
  split <;> simp_all

theorem first_of_family {α : Type} {family : Int32} {ip? : AddrInfo → Option α}
    (hip : ∀ info, (info.family == family) = (ip? info).isSome) (infos : List AddrInfo)
    : ((infos.find? fun info => info.family == family) = none ∧ infos.findSome? ip? = none)
        ∨
      ∃ info ip, (infos.find? fun info => info.family == family) = some info
        ∧ infos.findSome? ip? = some ip ∧ ip? info = some ip := by
  rw [EarlyExit.findSome?_eq_bind_find? hip]
  cases hfind : infos.find? fun info => info.family == family with
  | none => exact .inl ⟨rfl, rfl⟩
  | some info =>
    have hsome := List.find?_some hfind
    rw [hip, Option.isSome_iff_exists] at hsome
    rcases hsome with ⟨ip, hip⟩
    exact .inr ⟨info, ip, rfl, hip, hip⟩

def AnswerFor (chosen : Option AddrInfo) (answer : Except ErrorCode Ipx) : Prop :=
  match chosen with
  | none => answer = .error (resolveError eaiNoname)
  | some info => ∃ ip, answer = .ok ip ∧ Holds info ip

theorem answers_select (mode : ResolveMode) (infos : List AddrInfo)
    : AnswerFor (choose mode infos) (select mode ⟨infos.findSome? ip4?, infos.findSome? ip6?⟩) := by
  unfold choose
  rcases first_of_family isSome_ip4? infos with ⟨hno4, hnone4⟩ | ⟨info4, ip4, hinfo4, hip4, hentry4⟩
  . rcases first_of_family isSome_ip6? infos with ⟨hno6, hnone6⟩ | ⟨info6, ip6, hinfo6, hip6, hentry6⟩
    . rw [hno4, hno6, hnone4, hnone6]
      cases mode <;> rfl
    . have hholds6 := (holds_v6_iff ip6).mpr hentry6
      rw [hno4, hinfo6, hnone4, hip6]
      cases mode with
      | requireIpv4 => rfl
      | preferIpv4 | requireIpv6 | preferIpv6 => exact ⟨_, rfl, hholds6⟩
  . have hholds4 := (holds_v4_iff ip4).mpr hentry4
    rcases first_of_family isSome_ip6? infos with ⟨hno6, hnone6⟩ | ⟨info6, ip6, hinfo6, hip6, hentry6⟩
    . rw [hinfo4, hno6, hip4, hnone6]
      cases mode with
      | requireIpv6 => rfl
      | requireIpv4 | preferIpv4 | preferIpv6 => exact ⟨_, rfl, hholds4⟩
    . have hholds6 := (holds_v6_iff ip6).mpr hentry6
      rw [hinfo4, hinfo6, hip4, hip6]
      cases mode with
      | requireIpv4 | preferIpv4 => exact ⟨_, rfl, hholds4⟩
      | requireIpv6 | preferIpv6 => exact ⟨_, rfl, hholds6⟩

theorem resolveString_eq {getaddrinfo : GetAddrInfo} {heap : Heap} {address : String} (hok : address.Ok heap)
    (mode : ResolveMode)
    : ∃ source : CString, source.chars.bytes = (heap.bytes address.view).takeWhile (· != 0)
        ∧ resolveString getaddrinfo heap address mode = some (resolve getaddrinfo (some source) mode) := by
  rcases String.cStr_read hok with ⟨source, hread, hchars⟩
  refine ⟨source, ?_, ?_⟩
  . rw [← hchars, String.chars_bytes]
  . unfold resolveString
    rw [hread]

/--
The resolver answers with the entry that its mode asks for, as if it had read the whole list.
-/
theorem resolve_selects {getaddrinfo : GetAddrInfo} {address : CString}
    (h : getaddrinfo address.chars.bytes (hints mode) = (0, infos))
    : AnswerFor (choose mode infos) (resolve getaddrinfo (some address) mode)
        ∧
      resolve getaddrinfo (some address) mode
        = select mode (EarlyExit.foldAll (visit mode) ⟨none, none⟩ infos) := by
  have hresolve : resolve getaddrinfo (some address) mode = select mode (scan mode infos) := by
    unfold resolve
    dsimp only
    rw [h]
    rfl
  rw [hresolve, foldAll_visit, select_scan]
  exact ⟨answers_select mode infos, rfl⟩

-- an entry of another family, `::1` and `127.0.0.1`
theorem resolve_selects_second
    : resolve (fun _ _ => (0, [⟨1, [], by decide, by decide⟩,
          ⟨afInet6, [10, 0] ++ List.replicate 21 0 ++ [1] ++ List.replicate 4 0, by decide, by decide⟩,
          ⟨afInet, [2, 0, 0, 0, 127, 0, 0, 1] ++ List.replicate 8 0, by decide, by decide⟩]))
        (some ⟨[97, 0], by decide, by decide⟩) .preferIpv4
      = .ok (.v4 #v[127, 0, 0, 1]) := by
  exact (resolve_selects rfl).2.trans rfl

end Resolve

end Net

end Sfap
