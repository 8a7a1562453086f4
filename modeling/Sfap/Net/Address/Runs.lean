import Sfap.Lib.Transition
import Sfap.Net.Address.Refinement

/-!
This module contains the life of one `Address` on a heap that the rest of the program uses as well, and
that its state is the one that its history says.
-/

namespace Sfap

namespace Net

namespace Address

open Endpoint Transition

structure World where
  heap : Heap
  -- `none` in front of its constructor
  address : Option Address

-- a `hostname` comes with the characters in front of the first NUL behind it
inductive Op where
  | default
  | ofIp (ip : Ipx) (port : PortT)
  | ofHostname (hostname : CharPtr) (chars : List Byte) (port : PortT) (answers : Answers)
  | ofHostnameString (hostname : String) (chars : List Byte) (port : PortT) (answers : Answers)
  | fromIp (ip : Ipx)
  | fromHostname (hostname : CharPtr) (chars : List Byte) (answers : Answers)
  | fromHostnameString (hostname : String) (chars : List Byte) (answers : Answers)
  | setPort (port : PortT)
  | clear
  -- the rest of the program leaves the stored name alone
  | elsewhere (heap : Heap)

inductive Out where
  | done
  | error (error : ErrorCode)
  deriving DecidableEq

namespace World

def init (heap : Heap) : World := ⟨heap, none⟩

def construct (w : World) (result : Option (Address × Heap)) : Option (World × Out) :=
  match w.address, result with
  | none, some (a, heap) => some (⟨heap, some a⟩, .done)
  | _, _ => none

def constructFrom (w : World) (hostname : CharPtr) (chars : List Byte) (answers : Answers)
    (result : Option (Address × Heap)) : Option (World × Out) :=
  if Address.default.Given w.heap hostname chars answers then w.construct result else none

def mutate (w : World) (f : Address → Address × Heap) : Option (World × Out) :=
  match w.address with
  | none => none
  | some a =>
    let (a, heap) := f a
    some (⟨heap, some a⟩, .done)

def call (w : World) (hostname : CharPtr) (chars : List Byte) (answers : Answers)
    (f : Address → Option (ErrorCode × Address × Heap)) : Option (World × Out) :=
  match w.address with
  | none => none
  | some a =>
    if a.Given w.heap hostname chars answers then
      match f a with
      | none => none
      | some (error, a, heap) => some (⟨heap, some a⟩, .error error)
    else
      none

def unchanged (w : World) (heap : Heap) : Bool :=
  match w.address with
  | none => true
  | some a =>
    match a.originBlock with
    | none => true
    | some q => heap.blocks q == w.heap.blocks q

def step (w : World) (op : Op) : Option (World × Out) :=
  match op with
  | .default => w.construct (some (Address.default, w.heap))
  | .ofIp ip port => w.construct (some (Address.ofIp w.heap ip port))
  | .ofHostname hostname chars port answers =>
    w.constructFrom hostname chars answers (Address.ofHostname w.heap hostname port answers)
  | .ofHostnameString hostname chars port answers =>
    w.constructFrom hostname.cStr chars answers
      (Address.ofHostnameString w.heap hostname port answers)
  | .fromIp ip => w.mutate (·.fromIp w.heap ip)
  | .fromHostname hostname chars answers =>
    w.call hostname chars answers (·.fromHostname w.heap hostname answers)
  | .fromHostnameString hostname chars answers =>
    w.call hostname.cStr chars answers (·.fromHostnameString w.heap hostname answers)
  | .setPort port => w.mutate fun a => (a.setPort port, w.heap)
  | .clear => w.mutate (·.clear w.heap)
  | .elsewhere heap => if w.unchanged heap then some ({ w with heap := heap }, .done) else none

-- the arguments are good for the constructor, or for `from_hostname` once there is an object
def Given (w : World) (hostname : CharPtr) (chars : List Byte) (answers : Answers) : Prop :=
  (w.address.getD .default).Given w.heap hostname chars answers

/--
There is an object unless the operation constructs it, the arguments lie outside of it, and the rest of the
program leaves the stored name alone.
-/
def Provides (w : World) : Op → Prop
  | .default => w.address = none
  | .ofIp .. => w.address = none
  | .ofHostname hostname chars _ answers => w.address = none ∧ w.Given hostname chars answers
  | .ofHostnameString hostname chars _ answers => w.address = none ∧ w.Given hostname.cStr chars answers
  | .fromIp _ => w.address ≠ none
  | .fromHostname hostname chars answers => w.address ≠ none ∧ w.Given hostname chars answers
  | .fromHostnameString hostname chars answers => w.address ≠ none ∧ w.Given hostname.cStr chars answers
  | .setPort _ => w.address ≠ none
  | .clear => w.address ≠ none
  | .elsewhere heap => w.unchanged heap = true

end World

namespace Op

def events : Op → List Event
  | default => []
  | ofIp ip port => [.place ip none, .port port]
  | ofHostname _ chars port answers => answers.events chars ++ [.port port]
  | ofHostnameString _ chars port answers => answers.events chars ++ [.port port]
  | fromIp ip => [.place ip none]
  | fromHostname _ chars answers => answers.events chars
  | fromHostnameString _ chars answers => answers.events chars
  | setPort port => [.port port]
  | clear => [.clear]
  | elsewhere _ => []

def call? : Op → Option Answers
  | fromHostname _ _ answers => some answers
  | fromHostnameString _ _ answers => some answers
  | _ => none

end Op

def history (trace : List (Op × Out)) : List Event :=
  trace.flatMap (·.1.events)

namespace World

def Stands (w : World) (x : Option Endpoint) : Prop :=
  match w.address with
  | none => x = none
  | some a => a.Stands w.heap x

variable {w w' : World} {op : Op} {o : Out} {a : Address} {x : Option Endpoint}
  {hostname : CharPtr} {chars : List Byte} {answers : Answers}

theorem construct_stands {result : Option (Address × Heap)} {events : List Event}
    (h : w.Stands x) (hstep : w.construct result = some (w', o))
    (hresult : ∀ a heap, result = some (a, heap) → a.Stands heap (events.foldl apply none))
    : w'.Stands (events.foldl apply x) := by
  unfold construct at hstep
  split at hstep
  . next a heap haddress =>
    cases hstep
    unfold Stands at h
    rw [haddress] at h
    have hx : x = none := h
    rw [hx]
    apply hresult a heap rfl
  . simp at hstep

theorem mutate_stands {f : Address → Address × Heap} {events : List Event} (h : w.Stands x)
    (hstep : w.mutate f = some (w', o))
    (hf : ∀ a, a.Stands w.heap x → (f a).1.Stands (f a).2 (events.foldl apply x))
    : w'.Stands (events.foldl apply x) := by
  unfold mutate at hstep
  split at hstep
  . simp at hstep
  . next a ha =>
    cases hstep
    unfold Stands at h
    rw [ha] at h
    apply hf a h

theorem constructFrom_stands {result : Option (Address × Heap)} {port : PortT} (h : w.Stands x)
    (hstep : w.constructFrom hostname chars answers result = some (w', o))
    (hresult : result = Address.ofHostname w.heap hostname port answers)
    : w'.Stands ((answers.events chars ++ [Event.port port]).foldl apply x) := by
  unfold constructFrom at hstep
  split at hstep
  . next hgiven =>
    apply construct_stands h hstep
    intro a heap ha
    rcases fromHostname_spec (default_stands w.heap) hgiven with ⟨error, a₁, heap₁, heq, hcalled⟩
    rw [hresult] at ha
    unfold Address.ofHostname at ha
    rw [heq] at ha
    cases ha
    rw [List.foldl_append]
    apply setPort_stands hcalled.stands
  . simp at hstep

theorem call_cases {f : Address → Option (ErrorCode × Address × Heap)} (h : w.Stands x)
    (hstep : w.call hostname chars answers f = some (w', o))
    (hf : ∀ a, f a = a.fromHostname w.heap hostname answers)
    : ∃ a error a' heap', w.address = some a ∧ w' = ⟨heap', some a'⟩ ∧ o = .error error
        ∧ Called w.heap a x chars answers error a' heap' := by
  unfold call at hstep
  split at hstep
  . simp at hstep
  . next a ha =>
    unfold Stands at h
    rw [ha] at h
    split at hstep
    . next hgiven =>
      rcases fromHostname_spec h hgiven with ⟨error, a', heap', heq, hcalled⟩
      rw [hf a, heq] at hstep
      cases hstep
      exact ⟨a, error, a', heap', ha, rfl, rfl, hcalled⟩
    . simp at hstep

theorem call_stands {f : Address → Option (ErrorCode × Address × Heap)} (h : w.Stands x)
    (hstep : w.call hostname chars answers f = some (w', o))
    (hf : ∀ a, f a = a.fromHostname w.heap hostname answers)
    : w'.Stands ((answers.events chars).foldl apply x) := by
  rcases call_cases h hstep hf with ⟨a, error, a', heap', _, rfl, _, hcalled⟩
  exact hcalled.stands

theorem elsewhere_stands {heap : Heap} (h : w.Stands x) (hsame : w.unchanged heap = true)
    : World.Stands { w with heap := heap } x := by
  unfold Stands at *
  unfold unchanged at hsame
  cases ha : w.address with
  | none =>
    rw [ha] at h
    exact h
  | some a =>
    rw [ha] at h hsame
    apply h.frame
    intro q hq
    dsimp only at hsame
    rw [hq] at hsame
    simpa using hsame

theorem step_stands (h : w.Stands x) (hstep : w.step op = some (w', o))
    : w'.Stands (op.events.foldl apply x) := by
  cases op with
  | default =>
    apply construct_stands h hstep
    intro a heap ha
    cases ha
    apply default_stands
  | ofIp ip port =>
    apply construct_stands h hstep
    intro a heap ha
    cases ha
    apply setPort_stands (fromIp_stands (default_stands w.heap) ip)
  | ofHostname hostname chars port answers =>
    apply constructFrom_stands h hstep rfl
  | ofHostnameString hostname chars port answers =>
    apply constructFrom_stands h hstep rfl
  | fromIp ip =>
    have hmutate : w.mutate (·.fromIp w.heap ip) = some (w', o) := hstep
    apply mutate_stands h hmutate
    intro a ha
    apply fromIp_stands ha
  | fromHostname hostname chars answers =>
    apply call_stands h hstep fun _ => rfl
  | fromHostnameString hostname chars answers =>
    apply call_stands h hstep fun _ => rfl
  | setPort port =>
    have hmutate : w.mutate (fun a => (a.setPort port, w.heap)) = some (w', o) := hstep
    apply mutate_stands h hmutate
    intro a ha
    apply setPort_stands ha
  | clear =>
    have hmutate : w.mutate (·.clear w.heap) = some (w', o) := hstep
    apply mutate_stands h hmutate
    intro a _
    apply clear_stands
  | elsewhere heap =>
    unfold step at hstep
    dsimp only at hstep
    split at hstep
    . next hsame =>
      cases hstep
      apply elsewhere_stands h hsame
    . simp at hstep

theorem run_stands {heap : Heap} {trace : List (Op × Out)}
    (h : Run (ofStep step) (init heap) trace w)
    : w.Stands (ofHistory (history trace)) := by
  induction h with
  | nil => rfl
  | @snoc trace w₁ w₂ op o _ hstep ih =>
    have hhistory : history (trace ++ [(op, o)]) = history trace ++ op.events := by
      unfold history
      rw [List.flatMap_append]
      simp
    rw [hhistory, ofHistory_append]
    apply step_stands ih hstep

theorem step_call (h : w.Stands x) (hcall : op.call? = some answers)
    (hstep : w.step op = some (w', o))
    : ∃ a error a' heap' chars, w.address = some a ∧ w' = ⟨heap', some a'⟩ ∧ o = .error error
        ∧ Called w.heap a x chars answers error a' heap' := by
  cases op with
  | fromHostname hostname chars answers =>
    cases hcall
    rcases call_cases h hstep fun _ => rfl with ⟨a, error, a', heap', hcalled⟩
    exact ⟨a, error, a', heap', chars, hcalled⟩
  | fromHostnameString hostname chars answers =>
    cases hcall
    rcases call_cases h hstep fun _ => rfl with ⟨a, error, a', heap', hcalled⟩
    exact ⟨a, error, a', heap', chars, hcalled⟩
  | _ => simp [Op.call?] at hcall

theorem call_succeeds {error : ErrorCode} (h : w.Stands x) (hcall : op.call? = some answers)
    (hstep : w.step op = some (w', .error error)) (hfound : answers.found.isSome = true)
    : error.toBool = false := by
  rcases step_call h hcall hstep with ⟨a, _, a', heap', chars, _, _, herror, hcalled⟩
  cases herror
  rw [hcalled.succeeds hfound]
  apply ErrorCode.toBool_noError

theorem call_fails {error : ErrorCode} (h : w.Stands x) (hcall : op.call? = some answers)
    (hstep : w.step op = some (w', .error error)) (hfound : answers.found = none)
    : w' = w := by
  rcases step_call h hcall hstep with ⟨a, _, a', heap', chars, ha, rfl, _, hcalled⟩
  rcases hcalled.fails hfound with ⟨rfl, rfl⟩
  rcases w with ⟨heap, address⟩
  dsimp only at ha
  rw [ha]

theorem construct_defined (haddress : w.address = none) (result : Address × Heap)
    : w.construct (some result) = some (⟨result.2, some result.1⟩, .done) := by
  unfold construct
  rw [haddress]

theorem constructFrom_defined (haddress : w.address = none) (hgiven : w.Given hostname chars answers)
    (port : PortT)
    : ∃ w' o, w.constructFrom hostname chars answers (Address.ofHostname w.heap hostname port answers)
        = some (w', o) := by
  unfold Given at hgiven
  rw [haddress, Option.getD_none] at hgiven
  rcases fromHostname_spec (default_stands w.heap) hgiven with ⟨error, a, heap, heq, _⟩
  have hresult : Address.ofHostname w.heap hostname port answers = some (a.setPort port, heap) := by
    unfold Address.ofHostname
    rw [heq]
  unfold constructFrom
  rw [if_pos hgiven, hresult, construct_defined haddress]
  exact ⟨_, _, rfl⟩

theorem mutate_defined (haddress : w.address ≠ none) (f : Address → Address × Heap)
    : ∃ w' o, w.mutate f = some (w', o) := by
  unfold mutate
  split
  . contradiction
  . exact ⟨_, _, rfl⟩

theorem call_defined {f : Address → Option (ErrorCode × Address × Heap)} (h : w.Stands x)
    (haddress : w.address ≠ none) (hgiven : w.Given hostname chars answers)
    (hf : ∀ a, f a = a.fromHostname w.heap hostname answers)
    : ∃ w' o, w.call hostname chars answers f = some (w', o) := by
  rcases Option.ne_none_iff_exists'.mp haddress with ⟨a, ha⟩
  unfold Given at hgiven
  unfold Stands at h
  rw [ha] at h hgiven
  rw [Option.getD_some] at hgiven
  rcases fromHostname_spec h hgiven with ⟨error, a', heap', heq, _⟩
  refine ⟨⟨heap', some a'⟩, .error error, ?_⟩
  unfold call
  rw [ha]
  dsimp only
  rw [if_pos hgiven, hf a, heq]

theorem step_defined (h : w.Stands x) (hprovides : w.Provides op) : ∃ w' o, w.step op = some (w', o) := by
  cases op with
  | default => exact ⟨_, _, construct_defined hprovides _⟩
  | ofIp ip port => exact ⟨_, _, construct_defined hprovides _⟩
  | ofHostname hostname chars port answers =>
    apply constructFrom_defined hprovides.1 hprovides.2
  | ofHostnameString hostname chars port answers =>
    apply constructFrom_defined hprovides.1 hprovides.2
  | fromIp ip => exact mutate_defined hprovides (·.fromIp w.heap ip)
  | fromHostname hostname chars answers =>
    apply call_defined h hprovides.1 hprovides.2 fun _ => rfl
  | fromHostnameString hostname chars answers =>
    apply call_defined h hprovides.1 hprovides.2 fun _ => rfl
  | setPort port => exact mutate_defined hprovides fun a => (a.setPort port, w.heap)
  | clear => exact mutate_defined hprovides (·.clear w.heap)
  | elsewhere heap => exact ⟨_, _, if_pos hprovides⟩

end World

section State

variable {heap : Heap} {trace : List (Op × Out)} {w : World} {a : Address}

theorem stands_of_run (h : Run (ofStep World.step) (World.init heap) trace w) (ha : w.address = some a)
    : a.Stands w.heap ((lastPlace (history trace)).map fun s => ⟨s.1, lastPort (history trace), s.2⟩) := by
  have hworld := World.run_stands h
  have hlast : ofHistory (history trace)
      = (lastPlace (history trace)).map fun s => ⟨s.1, lastPort (history trace), s.2⟩ := by
    unfold ofHistory
    cases lastPlace (history trace) with
    | none => rfl
    | some s => rfl
  unfold World.Stands at hworld
  rw [ha, hlast] at hworld
  exact hworld

/--
An `Address` is what its history says: the last address that has been placed since the last `clear()`,
with the name it has been resolved from and with the last port that has been set since then.
-/
structure Follows (w : World) (trace : List (Op × Out)) (a : Address) : Prop where
  origin_only : a.origin.isSome = true → a.address.isSome = true
  ip : a.getAddress.map (·.ip) = (lastPlace (history trace)).map (·.1)
  port : a.getAddress.map (·.port) = (lastPlace (history trace)).map fun _ => lastPort (history trace)
  origin : a.getOrigin.map w.heap.bytes = (lastPlace (history trace)).bind (·.2)
  bindable : a.isBindable = true ↔ (lastPlace (history trace)).isSome = true
  connectable : a.isConnectable = true
    ↔ ∃ address, a.getAddress = some address ∧ (∃ b ∈ address.ip.data, b ≠ 0) ∧ address.port ≠ 0

theorem follows_of_run (h : Run (ofStep World.step) (World.init heap) trace w) (ha : w.address = some a)
    : Follows w trace a := by
  have hstands := stands_of_run h ha
  have haddress := hstands.address_eq
  have horigin := hstands.getOrigin_eq
  constructor
  . intro hsome
    cases hplace : lastPlace (history trace) with
    | none =>
      rw [hplace] at horigin
      unfold getOrigin at horigin
      rcases Option.isSome_iff_exists.mp hsome with ⟨origin, hsome⟩
      rw [hsome] at horigin
      simp at horigin
    | some s =>
      rw [haddress, hplace]
      rfl
  . unfold getAddress
    rw [haddress, Option.map_map, Option.map_map]
    rfl
  . unfold getAddress
    rw [haddress, Option.map_map, Option.map_map]
    rfl
  . rw [horigin, Option.bind_map]
    rfl
  . unfold isBindable
    rw [haddress, Option.isSome_map, Option.isSome_map]
  . apply isConnectable_iff

theorem state_of_history (h : Run (ofStep World.step) (World.init heap) trace w)
    : (∀ a, w.address = some a → Follows w trace a)
        ∧ (∀ op answers w' error, op.call? = some answers
            → w.step op = some (w', .error error)
            → (answers.found.isSome = true → error.toBool = false)
              ∧ (error.toBool = true ∨ answers.found = none → w' = w))
        ∧ (∀ op, w.Provides op → ∃ w' o, w.step op = some (w', o))
        ∧ (∀ (hostname : String) answers, hostname.Ok w.heap
            → hostname.cStr.Outside (w.address.getD .default).originBlock
            → answers.garbage.isSome = true
            → w.Given hostname.cStr ((w.heap.bytes hostname.view).takeWhile (· != 0)) answers) := by
  have hworld := World.run_stands h
  refine ⟨?_, ?_, ?_, ?_⟩
  . intro a ha
    apply follows_of_run h ha
  . intro op answers w' error hcall hstep
    have hsucceeds := World.call_succeeds hworld hcall hstep
    refine ⟨hsucceeds, ?_⟩
    intro hfails
    apply World.call_fails hworld hcall hstep
    cases hfails with
    | inr hnone => exact hnone
    | inl herror =>
      cases hfound : answers.found with
      | none => rfl
      | some ip =>
        have := hsucceeds (by rw [hfound]; rfl)
        rw [herror] at this
        simp at this
  . intro op hprovides
    apply World.step_defined hworld hprovides
  . intro hostname answers hok houtside hgarbage
    apply given_of_string hok houtside hgarbage

end State

-- a string is resolved, then a pointer to nothing is refused, and the string may be resolved again
theorem state_of_history_of_resolved_name
    : let localhost : Ipx := .v4 ⟨#[127, 0, 0, 1], rfl⟩
      let resolved : Answers := ⟨.ok .hostname, .ok localhost, some fun _ => 7, 0⟩
      let refused : Answers := ⟨.ok .empty, .ok localhost, some fun _ => 7, 1⟩
      let made := String.ofView Memory.empty ⟨[97, 98, 0, 99], by decide⟩ (some fun _ => 7)
      let ops : List Op :=
        [.default, .setPort 5, .fromHostnameString made.1 [97, 98] resolved, .setPort 80,
          .fromHostname .null [] refused]
      ∃ trace w a, Run (ofStep World.step) (World.init made.2) trace w ∧ trace.map (·.1) = ops
        ∧ w.address = some a
        ∧ a.getAddress.map (·.ip) = some localhost
        ∧ a.getAddress.map (·.port) = some 80
        ∧ a.getOrigin.map w.heap.bytes = some [97, 98]
        ∧ a.isConnectable = true
        ∧ ∃ w' o, w.step (.fromHostnameString made.1 [97, 98] resolved) = some (w', o) := by
  intro localhost resolved refused made ops
  have hexec : ((exec World.step (World.init made.2) ops).map fun r =>
      ((r.2.length, r.1.address.isSome, (r.1.address.getD .default).originBlock),
        r.1.heap.blocks 0, (r.1.heap.bytes made.1.view).takeWhile (· != 0)))
        = some ((5, true, some 1), made.2.blocks 0, [97, 98]) := by decide
  rcases Option.map_eq_some_iff.mp hexec with ⟨⟨w, outs⟩, hexec, heq⟩
  simp only [Prod.mk.injEq] at heq
  rcases heq with ⟨⟨hlength, hsome, hblock⟩, hsame, hchars⟩
  rcases Option.isSome_iff_exists.mp hsome with ⟨a, ha⟩
  have hops : (ops.zip outs).map (·.1) = ops := by
    apply List.map_fst_zip
    rw [hlength]
    rfl
  have hhistory : history (ops.zip outs)
      = [.port 5, .place localhost (some [97, 98]), .port 80] := by
    unfold history
    rw [← List.flatMap_map, hops]
    rfl
  rcases state_of_history (run_of_exec hexec) with ⟨hfollows, _, hdefined, hgiven⟩
  rcases hfollows a ha with ⟨_, hip, hport, horigin, _, hconnectable⟩
  rw [hhistory] at hip hport horigin
  have hpointer : made.1.data.data = some ⟨0, 0⟩ := by decide
  have hok : made.1.Ok w.heap := by
    apply (String.ofView_spec Memory.empty _ _).ok.frame
    intro p hp
    rw [hpointer, Option.some.injEq] at hp
    rw [← hp]
    exact hsame
  have houtside : made.1.cStr.Outside (w.address.getD .default).originBlock := by
    unfold String.cStr CharPtr.Outside
    rw [hpointer, hblock]
    decide
  have hprovides := hgiven made.1 resolved hok houtside rfl
  rw [hchars] at hprovides
  refine ⟨ops.zip outs, w, a, run_of_exec hexec, hops, ha, hip, hport, horigin, ?_, ?_⟩
  . rw [hconnectable]
    rcases Option.map_eq_some_iff.mp hip with ⟨address, haddress, hlocalhost⟩
    rw [haddress, Option.map_some] at hport
    have hport : address.port = 80 := Option.some.inj hport
    refine ⟨address, haddress, ?_, ?_⟩
    . rw [hlocalhost]
      decide
    . rw [hport]
      decide
  . apply hdefined
    exact ⟨Option.isSome_iff_ne_none.mp hsome, hprovides⟩

end Address

end Net

end Sfap
