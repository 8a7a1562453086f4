import Sfap.Lib.History
import Sfap.Net.Types

/-!
This module contains what an `Address` is for: one endpoint that has been set, or none, and what it is
after a history of events.
-/

namespace Sfap

namespace Net

/--
An IP address with a port, and the name that has been resolved to it. There is no name without an
address.
-/
structure Endpoint where
  ip : Ipx
  port : PortT
  origin : Option (List Byte)
  deriving DecidableEq

namespace Endpoint

inductive Event where
  | place (ip : Ipx) (origin : Option (List Byte))
  | port (port : PortT)
  | clear
  deriving DecidableEq

namespace Event

def isClear : Event → Bool
  | clear => true
  | _ => false

def isPlace : Event → Bool
  | place _ _ => true
  | _ => false

def place? : Event → Option (Ipx × Option (List Byte))
  | place ip origin => some (ip, origin)
  | _ => none

def port? : Event → Option PortT
  | port p => some p
  | _ => none

end Event

def apply (x : Option Endpoint) : Event → Option Endpoint
  | .place ip origin =>
    match x with
    | some e => some { e with ip := ip, origin := origin }
    | none => some ⟨ip, 0, origin⟩
  | .port p =>
    match x with
    | some e => some { e with port := p }
    | none => none
  | .clear => none

def lastPlace (h : List Event) : Option (Ipx × Option (List Byte)) :=
  History.last Event.place? (History.since Event.isClear h)

-- the last port that has been set since there has been an address without a break
def lastPort (h : List Event) : PortT :=
  (History.last Event.port?
    (History.onward Event.isPlace (History.since Event.isClear h))).getD 0

def ofHistory (h : List Event) : Option Endpoint :=
  match lastPlace h with
  | some (ip, origin) => some ⟨ip, lastPort h, origin⟩
  | none => none

theorem lastPlace_eq_none_iff (h : List Event)
    : lastPlace h = none ↔ (History.since Event.isClear h).any Event.isPlace = false := by
  unfold lastPlace
  apply History.last_eq_none_iff
  intro e
  cases e <;> rfl

theorem lastPort_of_none {h : List Event} (hnone : lastPlace h = none) : lastPort h = 0 := by
  have hany := (lastPlace_eq_none_iff h).mp hnone
  have hnil : History.onward Event.isPlace (History.since Event.isClear h) = [] := by
    unfold History.onward
    rw [List.dropWhile_eq_nil_iff]
    intro e he
    rw [List.any_eq_false] at hany
    simpa using hany e he
  unfold lastPort
  rw [hnil]
  rfl

section Snoc

variable (h : List Event)

theorem lastPlace_place (ip : Ipx) (origin : Option (List Byte))
    : lastPlace (h ++ [.place ip origin]) = some (ip, origin) := by
  unfold lastPlace
  rw [History.since_snoc, if_neg (by simp [Event.isClear]), History.last_snoc]
  rfl

theorem lastPlace_port (p : PortT) : lastPlace (h ++ [.port p]) = lastPlace h := by
  unfold lastPlace
  rw [History.since_snoc, if_neg (by simp [Event.isClear]), History.last_snoc]
  rfl

theorem lastPlace_clear : lastPlace (h ++ [.clear]) = none := by
  unfold lastPlace
  rw [History.since_snoc]
  rfl

theorem lastPort_place (ip : Ipx) (origin : Option (List Byte))
    : lastPort (h ++ [.place ip origin]) = lastPort h := by
  cases hplace : lastPlace h with
  | none =>
    have hany := (lastPlace_eq_none_iff h).mp hplace
    rw [lastPort_of_none hplace]
    unfold lastPort
    rw [History.since_snoc, if_neg (by simp [Event.isClear]), History.onward_snoc, hany]
    rfl
  | some _ =>
    have hany : (History.since Event.isClear h).any Event.isPlace = true := by
      rw [← Bool.not_eq_false, ← lastPlace_eq_none_iff, hplace]
      simp
    unfold lastPort
    rw [History.since_snoc, if_neg (by simp [Event.isClear]), History.onward_snoc, if_pos hany,
      History.last_snoc]
    rfl

theorem lastPort_port (p : PortT) (hplace : (lastPlace h).isSome = true)
    : lastPort (h ++ [.port p]) = p := by
  have hany : (History.since Event.isClear h).any Event.isPlace = true := by
    rw [← Bool.not_eq_false, ← lastPlace_eq_none_iff]
    intro hnone
    rw [hnone] at hplace
    simp at hplace
  unfold lastPort
  rw [History.since_snoc, if_neg (by simp [Event.isClear]), History.onward_snoc, if_pos hany,
    History.last_snoc]
  rfl

theorem ofHistory_snoc (e : Event) : ofHistory (h ++ [e]) = apply (ofHistory h) e := by
  cases e with
  | place ip origin =>
    unfold ofHistory
    rw [lastPlace_place, lastPort_place]
    cases hplace : lastPlace h with
    | none =>
      rw [lastPort_of_none hplace]
      rfl
    | some _ => rfl
  | port p =>
    unfold ofHistory
    rw [lastPlace_port]
    cases hplace : lastPlace h with
    | none => rfl
    | some _ =>
      rw [lastPort_port]
      . rfl
      . rw [hplace]
        rfl
  | clear =>
    unfold ofHistory
    rw [lastPlace_clear]
    rfl

end Snoc

theorem ofHistory_append (h events : List Event)
    : ofHistory (h ++ events) = events.foldl apply (ofHistory h) := by
  induction events generalizing h with
  | nil => rw [List.append_nil, List.foldl_nil]
  | cons e events ih =>
    rw [List.append_cons, ih, ofHistory_snoc, List.foldl_cons]

end Endpoint

end Net

end Sfap
