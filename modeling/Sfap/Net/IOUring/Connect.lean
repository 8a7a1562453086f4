import Sfap.Net.Address.Impl
import Sfap.Net.IOUring.Steps

/-!
This module contains which endpoint the request of `connect` goes to.
-/

namespace Sfap

namespace Net

open IOUring

namespace IOUring

def vector? (n : Nat) (bytes : List Byte) : Option (Vector UInt8 n) :=
  if h : bytes.length = n then some ⟨bytes.toArray, h⟩ else none

-- `none` if it is no socket address, or if a byte is set that belongs to neither the port nor the address
def decode (bytes : List Byte) (length : UInt32) : Option InternalAddress :=
  match bytes with
  | family₀ :: family₁ :: port₀ :: port₁ :: rest =>
    let family := family₀.toUInt16 + 256 * family₁.toUInt16
    let port := 256 * port₀.toUInt16 + port₁.toUInt16
    if family = AF_INET ∧ length = 16 ∧ rest.drop 4 = .replicate 120 0 then
      (vector? 4 (rest.take 4)).map fun ip => ⟨.v4 ip, port⟩
    else if family = AF_INET6 ∧ length = 28 ∧ rest.take 4 = .replicate 4 0
        ∧ rest.drop 20 = .replicate 104 0 then
      (vector? 16 ((rest.drop 4).take 16)).map fun ip => ⟨.v6 ip, port⟩
    else
      none
  | _ => none

theorem vector?_toList {n : Nat} (v : Vector UInt8 n) : vector? n v.toList = some v := by
  have hlen : v.toList.length = n := v.size_toArray
  unfold vector?
  rw [dif_pos hlen]
  rfl

theorem port_bytes (port : PortT)
    : (256 : UInt16) * (port >>> 8).toUInt8.toUInt16 + port.toUInt8.toUInt16 = port := by
  have hlt := port.toNat_lt
  rw [← UInt16.toNat_inj]
  simp [Nat.shiftRight_eq_div_pow]
  omega

theorem header_eq (a b c d : Byte)
    : ((List.replicate 128 0).splice 0 [a, b]).splice 2 [c, d] = a :: b :: c :: d :: .replicate 124 0 := by
  rfl

@[simp]
theorem family_v4 (ip : Ip4) : family (.v4 ip) = AF_INET := rfl

@[simp]
theorem family_v6 (ip : Ip6) : family (.v6 ip) = AF_INET6 := rfl

theorem sockaddr_v4 (ip : Ip4) (port : PortT)
    : sockaddr ⟨.v4 ip, port⟩
        =
      (2 : Byte) :: (0 : Byte) :: (port >>> 8).toUInt8 :: port.toUInt8 :: (ip.toList ++ .replicate 120 0) := by
  have hlen : ip.toList.length = 4 := ip.size_toArray
  have hdata : (Ipx.v4 ip).data = ip.toList := rfl
  unfold sockaddr
  dsimp only
  rw [header_eq, family_v4, hdata, if_pos (by decide)]
  unfold List.splice
  rw [hlen]
  rfl

theorem sockaddr_v6 (ip : Ip6) (port : PortT)
    : sockaddr ⟨.v6 ip, port⟩
        =
      (10 : Byte) :: (0 : Byte) :: (port >>> 8).toUInt8 :: port.toUInt8
        :: (.replicate 4 0 ++ ip.toList ++ .replicate 104 0) := by
  have hlen : ip.toList.length = 16 := ip.size_toArray
  have hdata : (Ipx.v6 ip).data = ip.toList := rfl
  unfold sockaddr
  dsimp only
  rw [header_eq, family_v6, hdata, if_neg (by decide)]
  unfold List.splice
  rw [hlen]
  rfl

theorem decode_sockaddr (address : InternalAddress)
    : decode (sockaddr address) (sockaddrLength address) = some address := by
  rcases address with ⟨ip | ip, port⟩
  . have hlen : ip.toList.length = 4 := ip.size_toArray
    rw [sockaddr_v4]
    unfold decode
    dsimp only
    rw [if_pos, List.take_left' hlen, vector?_toList, port_bytes]
    . rfl
    . refine ⟨by decide, by rfl, ?_⟩
      apply List.drop_left' hlen
  . have hlen : ip.toList.length = 16 := ip.size_toArray
    have hlen' : (List.replicate 4 (0 : Byte) ++ ip.toList).length = 20 := by
      rw [List.length_append, hlen]
      rfl
    rw [sockaddr_v6]
    unfold decode
    dsimp only
    rw [if_neg (fun h => absurd h.1 (by decide)), if_pos, List.append_assoc, List.drop_left' (by rfl),
      List.take_left' hlen, vector?_toList, port_bytes]
    . rfl
    . refine ⟨by decide, by rfl, ?_, ?_⟩
      . rw [List.append_assoc]
        apply List.take_left' (by rfl)
      . apply List.drop_left' hlen'

end IOUring

namespace IOUringProactor

-- `none` if the IP and the port of an address are read that holds none
def connectTo (s : IOUringProactor) (address : Address) (fd : Int32) (env : Env) : Option IOUringProactor :=
  match address.getAddress with
  | none => none
  | some address => some (s.connect address fd env)

def ReturnsError (s s' : IOUringProactor) : Prop :=
  (∃ call error, s'.calls s.nextFrame = some call ∧ call.outcome = some (.unexpected error))
    ∧ s'.sockets = s.sockets

/--
Next to what has been queued before, one request is handed over, and it goes to `address` from the
descriptor of the handle that has been drawn.
-/
def ConnectsTo (s s' : IOUringProactor) (address : InternalAddress) : Prop :=
  ∃ state bytes length userData,
    s'.sockets s.nextHandleId = some state
      ∧ s'.inFlight = s.inFlight ++ s.queued.map (fun e => ⟨s.slots e.slot, e.origin⟩)
        ++ [⟨⟨.connect state.handle bytes length, userData⟩, some s.nextFrame⟩]
      ∧ decode bytes length = some address

variable {s s₁ s' : IOUringProactor} {f : Frame} {call : Call} {env : Env} {error noSqe : ErrorCode}
  {address : InternalAddress} {fd : Int32} {request : Request}

structure Refuses (s : IOUringProactor) (f : Frame) (sid : SocketT) (error : ErrorCode)
    (s' : IOUringProactor) : Prop where
  outcome : ∃ call, s'.calls f = some call
    ∧ call.outcome = some (if error.toBool then .unexpected error else .socket sid)
  inFlight : s'.inFlight = s.inFlight
  sockets : error.toBool = true → s'.sockets = Function.update s.sockets sid none

theorem Refuses.congr {sid : SocketT} (h : Refuses s₁ f sid error s') (hinFlight : s₁.inFlight = s.inFlight)
    (hsockets : s₁.sockets = s.sockets)
    : Refuses s f sid error s' := by
  refine ⟨h.outcome, h.inFlight.trans hinFlight, ?_⟩
  intro herror
  rw [h.sockets herror, hsockets]

theorem sockets_cleanup (s : IOUringProactor) (sid : SocketT)
    : (s.cleanup sid).sockets = Function.update s.sockets sid none := by
  unfold cleanup
  split
  . next hnone =>
    rw [← hnone]
    exact (Function.update_eq_self sid s.sockets).symm
  . dsimp only
    split <;> rfl

theorem refuses_exitWith (s : IOUringProactor) (f : Frame) (hargs : call.args = .connect address)
    (hout : call.outcome = none) (error : ErrorCode)
    : Refuses s f call.socket error (s.exitWith f call error) := by
  have hfin := exitWith_spec s f call error hout
  constructor
  . rw [hfin.calls, Function.update_self]
    refine ⟨_, rfl, ?_⟩
    rw [IOUring.Call.outcome_done]
    unfold IOUring.Call.result
    dsimp only
    rw [hargs]
    rfl
  . exact hfin.inFlight
  . intro herror
    unfold exitWith resume setCall
    dsimp only
    rw [Function.update_self]
    dsimp only
    rw [hout, if_neg (by simp)]
    unfold proceed
    rw [hargs]
    dsimp only
    unfold connectReturn ConnectAwaiter.awaitResume
    rw [if_pos herror]
    apply sockets_cleanup

theorem refuses_suspendOn (s : IOUringProactor) (f : Frame) (hargs : call.args = .connect address)
    (hout : call.outcome = none) (hhands : env.handsOver = false) (noSqe : ErrorCode) (request : Request)
    : ∃ error, ((env.sqe = none ∧ error = noSqe) ∨ (env.sqe ≠ none ∧ error.toBool = true))
        ∧ Refuses s f call.socket error (s.suspendOn f call noSqe request env) := by
  unfold suspendOn
  split
  . next hsqe => exact ⟨noSqe, .inl ⟨hsqe, rfl⟩, refuses_exitWith s f hargs hout noSqe⟩
  . next slot hsqe =>
    have hslot : env.sqe ≠ none := by simp [hsqe]
    split
    . exact ⟨_, .inr ⟨hslot, rfl⟩, (refuses_exitWith _ f hargs hout _).congr rfl rfl⟩
    . next a hopdata =>
      have hfail : env.submit < 0 := by
        simpa [Env.handsOver, hsqe, hopdata] using hhands
      dsimp only
      rw [if_pos hfail, submit_fail hfail]
      refine ⟨_, .inr ⟨hslot, ErrorCode.toBool_networkError_neg hfail⟩, ?_⟩
      have hargs' : { call with operation := some a }.args = .connect address := hargs
      apply (refuses_exitWith _ f hargs' hout _).congr
      . rw [freeOpdata_eq (Function.update_self ..)]
        rfl
      . rw [freeOpdata_eq (Function.update_self ..)]
        rfl

theorem handsOver_suspendOn (hhands : env.handsOver = true) (hoffers : s.Offers env.sqe env.opdata)
    (f : Frame) (call : Call) (noSqe : ErrorCode) (request : Request)
    : (s.suspendOn f call noSqe request env).sockets = s.sockets
        ∧ ∃ a, (s.suspendOn f call noSqe request env).inFlight
          =
        s.inFlight ++ s.queued.map (fun e => ⟨s.slots e.slot, e.origin⟩) ++ [⟨⟨request, some a⟩, some f⟩] := by
  unfold suspendOn
  unfold Env.handsOver at hhands
  split
  . next hsqe => simp [hsqe] at hhands
  . next slot hsqe =>
    split
    . next hopdata => simp [hopdata] at hhands
    . next a hopdata =>
      have hok : ¬ env.submit < 0 := by
        simpa [hsqe, hopdata] using hhands
      dsimp only
      rw [if_neg hok, submit_ok hok]
      refine ⟨rfl, a, ?_⟩
      unfold setCall prep allocOpdata getSqe
      dsimp only
      rw [List.map_append, List.map_singleton, Function.update_self, List.append_assoc]
      congr 2
      apply List.map_congr_left
      intro e he
      rw [Function.update_of_ne (hoffers.1 slot hsqe e he)]

theorem sockets_emplaceSocket (s : IOUringProactor) (sid : SocketT) (state : SocketState)
    : (s.emplaceSocket sid state).sockets
        =
      Function.update s.sockets sid (some ((s.sockets sid).getD state)) := by
  unfold emplaceSocket
  split
  . next hnone => rw [hnone, Option.getD_none]
  . next kept hkept =>
    rw [hkept, Option.getD_some, ← hkept]
    exact (Function.update_eq_self sid s.sockets).symm

theorem connect_fail (s : IOUringProactor) (address : InternalAddress) (env : Env) (hfd : fd < 0)
    : ReturnsError s (s.connect address fd env) := by
  unfold connect
  dsimp only
  rw [if_pos hfd]
  refine ⟨⟨{ Call.init (.connect address) 0 with outcome := some (.unexpected (.networkError env.errno)) },
    .networkError env.errno, ?_, rfl⟩, rfl⟩
  exact Function.update_self ..

theorem connect_cases (address : InternalAddress) (hfd : ¬ fd < 0) (hoffers : s.Offers env.sqe env.opdata)
    : (env.handsOver = true ∧ ConnectsTo s (s.connect address fd env) address)
        ∨
      (env.handsOver = false ∧ ∃ error, (error.toBool = true ↔ (env.sqe = none → env.errno ≠ 0))
          ∧ Refuses s s.nextFrame s.nextHandleId error (s.connect address fd env)) := by
  unfold connect newFrame
  dsimp only
  rw [if_neg hfd]
  generalize hs₁ : IOUringProactor.emplaceSocket _ _ _ = s₁
  have hsame := sameCalls_emplaceSocket
    { s with nextFrame := s.nextFrame + 1, nextHandleId := s.nextHandleId + 1 } s.nextHandleId ⟨fd, false⟩
  have hkept := sockets_emplaceSocket
    { s with nextFrame := s.nextFrame + 1, nextHandleId := s.nextHandleId + 1 } s.nextHandleId ⟨fd, false⟩
  rw [hs₁] at hsame hkept
  generalize (s.sockets s.nextHandleId).getD ⟨fd, false⟩ = kept at hkept
  unfold ConnectAwaiter.awaitSuspend
  have hentry : s₁.sockets s.nextHandleId = some kept := by
    rw [hkept]
    exact Function.update_self ..
  have hsocket : (Call.init (.connect address) s.nextHandleId).socket = s.nextHandleId := rfl
  rw [hsocket, hentry]
  dsimp only
  cases hhands : env.handsOver with
  | true =>
    refine .inl ⟨rfl, ?_⟩
    have hoffers₁ : s₁.Offers env.sqe env.opdata := by
      unfold Offers
      rw [hsame.queued, hsame.opdata]
      exact hoffers
    rcases handsOver_suspendOn hhands hoffers₁ s.nextFrame (.init (.connect address) s.nextHandleId)
      (.networkError env.errno) (.connect kept.handle (sockaddr address) (sockaddrLength address))
      with ⟨hsockets, a, hinFlight⟩
    refine ⟨kept, sockaddr address, sockaddrLength address, some a, ?_, ?_, decode_sockaddr address⟩
    . rw [hsockets, hentry]
    . rw [hinFlight, hsame.inFlight, hsame.queued, hsame.slots]
  | false =>
    refine .inr ⟨rfl, ?_⟩
    have hargs : (Call.init (.connect address) s.nextHandleId).args = .connect address := rfl
    rcases refuses_suspendOn s₁ s.nextFrame hargs rfl hhands (.networkError env.errno)
      (.connect kept.handle (sockaddr address) (sockaddrLength address)) with ⟨error, herror, hrefuses⟩
    have hiff : error.toBool = true ↔ (env.sqe = none → env.errno ≠ 0) := by
      rcases herror with ⟨hsqe, rfl⟩ | ⟨hsqe, herror⟩
      . rw [ErrorCode.toBool_networkError, bne_iff_ne]
        simp [hsqe]
      . simp [hsqe, herror]
    refine ⟨error, hiff, hrefuses.outcome, hrefuses.inFlight.trans hsame.inFlight, ?_⟩
    intro h
    rw [hrefuses.sockets h, hkept]
    apply Function.update_idem

theorem Refuses.not_connectsTo {sid : SocketT} (h : Refuses s f sid error s') : ¬ ConnectsTo s s' address := by
  rintro ⟨_, _, _, _, _, hinFlight, _⟩
  have hlength := congrArg List.length hinFlight
  rw [h.inFlight, List.length_append, List.length_append, List.length_singleton] at hlength
  omega

theorem Refuses.returnsError_iff {sid : SocketT} (h : Refuses s s.nextFrame sid error s')
    : ReturnsError s s' ↔ error.toBool = true ∧ s.sockets sid = none := by
  rcases h.outcome with ⟨call, hcall, houtcome⟩
  constructor
  . rintro ⟨⟨call', error', hcall', houtcome'⟩, hsockets⟩
    rw [hcall] at hcall'
    cases hcall'
    rw [houtcome] at houtcome'
    have herror : error.toBool = true := by
      by_contra hnot
      simp [hnot] at houtcome'
    refine ⟨herror, ?_⟩
    rw [← hsockets, h.sockets herror]
    exact Function.update_self ..
  . rintro ⟨herror, hnone⟩
    refine ⟨⟨call, error, hcall, ?_⟩, ?_⟩
    . rw [houtcome, if_pos herror]
    . rw [h.sockets herror, ← hnone]
      exact Function.update_eq_self sid s.sockets

/--
The address is there, and a call that does not hand its request over has drawn a free handle and finds out that it
has failed.
-/
def Connectable (s : IOUringProactor) (address : Address) (fd : Int32) (env : Env) : Prop :=
  address.getAddress ≠ none
    ∧ (fd < 0 ∨ env.handsOver = true ∨ (s.sockets s.nextHandleId = none ∧ (env.sqe = none → env.errno ≠ 0)))

/--
A `connect` goes to the endpoint in its address or returns an error that leaves no trace.
-/
theorem connectTo_iff_connectable (a : Address) (fd : Int32) (hoffers : s.Offers env.sqe env.opdata)
    : (∃ s', s.connectTo a fd env = some s'
        ∧ (ReturnsError s s' ∨ ∃ address, a.getAddress = some address ∧ ConnectsTo s s' address))
        ↔
      Connectable s a fd env := by
  unfold connectTo Connectable
  cases haddress : a.getAddress with
  | none => simp
  | some address =>
    simp only [Option.some.injEq, exists_eq_left', ne_eq, reduceCtorEq, not_false_eq_true, true_and]
    by_cases hfd : fd < 0
    . exact iff_of_true (.inl (connect_fail s address env hfd)) (.inl hfd)
    . rcases connect_cases address hfd hoffers with ⟨hhands, hconnects⟩ | ⟨hhands, error, herror, hrefuses⟩
      . exact iff_of_true (.inr hconnects) (.inr (.inl hhands))
      . rw [hrefuses.returnsError_iff, herror]
        constructor
        . rintro (⟨herrno, hnone⟩ | hconnects)
          . exact .inr (.inr ⟨hnone, herrno⟩)
          . exact absurd hconnects hrefuses.not_connectsTo
        . rintro (h | h | ⟨hnone, herrno⟩)
          . exact absurd h hfd
          . simp [hhands] at h
          . exact .inl ⟨herrno, hnone⟩

-- `127.0.0.1:80`
theorem connectTo_loopback
    : let address : InternalAddress := ⟨.v4 #v[127, 0, 0, 1], 80⟩
      ∃ s', (ofEntries 0).connectTo ⟨some address, none⟩ 3 ⟨0, some 0, some 0, 1⟩ = some s'
        ∧ (ReturnsError (ofEntries 0) s'
          ∨ ∃ address', some address = some address' ∧ ConnectsTo (ofEntries 0) s' address') := by
  have hoffers : (ofEntries 0).Offers (some 0) (some 0) := by
    unfold Offers
    simp [ofEntries]
  have hpresent : (⟨some ⟨.v4 #v[127, 0, 0, 1], 80⟩, none⟩ : Address).getAddress ≠ none := Option.some_ne_none _
  exact (connectTo_iff_connectable _ 3 hoffers).mpr ⟨hpresent, .inr (.inl rfl)⟩

-- an address that is empty, and one that is not while there is no entry and `errno` is 0
theorem connectTo_of_empty
    : (ofEntries 0).connectTo .default 3 ⟨0, some 0, some 0, 1⟩ = none
        ∧
      let s' := (ofEntries 0).connect ⟨.v4 #v[127, 0, 0, 1], 80⟩ 3 ⟨0, none, none, 0⟩
      (s'.calls 0).bind IOUring.Call.outcome = some (.socket 1) ∧ s'.inFlight = [] := by
  refine ⟨rfl, ?_, rfl⟩
  decide

end IOUringProactor

end Net

end Sfap
