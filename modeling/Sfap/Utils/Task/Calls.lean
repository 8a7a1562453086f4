import Sfap.Utils.Task.Tree

/-!
This module contains the proof that a tree of coroutines on the machine does what the same program does
with plain calls.
-/

namespace Sfap

namespace Task

variable {V Req Res : Type}

namespace Machine

variable {m : Machine V} {f g h : Frame} {c : Coroutine V} {p : Point} {r : Resumer}

def calls (m : Machine V) : List (Resumer × Frame) :=
  m.resumed.map fun r => (r.resumer, r.target)

theorem active_of_running (hf : m.frames f = some c) (hs : c.status = .running)
    : m.active f = some c := by
  unfold active
  simp [hf, hs]

theorem rest_resume
    : (m.resume r f).tasks = m.tasks
        ∧ (m.resume r f).operations = m.operations
        ∧ (m.resume r f).nextFrame = m.nextFrame := by
  unfold resume
  dsimp only
  split
  . exact ⟨rfl, rfl, rfl⟩
  . split <;> exact ⟨rfl, rfl, rfl⟩

theorem frames_suspend (g : Frame)
    : (m.suspend f c p).frames g
        = if g = f then some { c with status := .suspended p, suspensions := c.suspensions + 1 }
          else m.frames g := by
  apply frames_setFrame

theorem frames_resume (hf : m.frames f = some c) (hs : c.status = .suspended p) (hp : p ≠ .final)
    (g : Frame)
    : (m.resume r f).frames g
        = if g = f then some { c with status := .running } else m.frames g := by
  rw [resume_at hf hs hp]
  apply frames_setFrame

theorem calls_resume (hf : m.frames f = some c) (hs : c.status = .suspended p) (hp : p ≠ .final)
    : (m.resume r f).calls = m.calls ++ [(r, f)] := by
  rw [resume_at hf hs hp]
  simp [calls, log, setFrame]

theorem frames_coReturn_root {value : V} (hc : c.continuation = none) (g : Frame)
    : (m.coReturn f c value).frames g
        = if g = f then
            some ⟨.suspended .final, c.suspensions + 1, value, none⟩
          else
            m.frames g := by
  unfold coReturn
  rw [hc]
  dsimp only
  rw [frames_suspend]

theorem frames_coReturn {value : V} {cg : Coroutine V} (hc : c.continuation = some g)
    (hg : m.frames g = some cg) (hs : cg.status = .suspended (.child f)) (hne : g ≠ f) (i : Frame)
    : (m.coReturn f c value).frames i
        = if i = g then
            some { cg with status := .running }
          else if i = f then
            some ⟨.suspended .final, c.suspensions + 1, value, some g⟩
          else
            m.frames i := by
  unfold coReturn
  have hg' : (m.suspend f { c with value := value } .final).frames g = some cg := by
    rw [frames_suspend, if_neg hne, hg]
  rw [hc] at hg' ⊢
  dsimp only
  rw [frames_resume hg' hs (by simp), frames_suspend]

theorem calls_coReturn {value : V} {cg : Coroutine V} (hc : c.continuation = some g)
    (hg : m.frames g = some cg) (hs : cg.status = .suspended (.child f)) (hne : g ≠ f)
    : (m.coReturn f c value).calls = m.calls ++ [(.finalSuspend f, g)] := by
  unfold coReturn
  have hg' : (m.suspend f { c with value := value } .final).frames g = some cg := by
    rw [frames_suspend, if_neg hne, hg]
  rw [hc] at hg' ⊢
  apply calls_resume hg' hs (by simp)

theorem frames_exitIo {op : Operation} (g : Frame)
    : (m.exitIo f c op).frames g
        = if g = f then
            some { c with status := .running, suspensions := c.suspensions + 1 }
          else
            m.frames g := by
  unfold exitIo
  have hf : (m.suspend f c (.io op)).frames f
      = some { c with status := .suspended (.io op), suspensions := c.suspensions + 1 } := by
    rw [frames_suspend, if_pos rfl]
  rw [frames_resume hf rfl (by simp), frames_suspend]
  split <;> rfl

theorem calls_exitIo {op : Operation} : (m.exitIo f c op).calls = m.calls ++ [(.exit op, f)] := by
  unfold exitIo
  have hf : (m.suspend f c (.io op)).frames f
      = some { c with status := .suspended (.io op), suspensions := c.suspensions + 1 } := by
    rw [frames_suspend, if_pos rfl]
  apply calls_resume hf rfl (by simp)

theorem frames_handleCqe {op : Operation} (hf : m.frames f = some c)
    (hs : c.status = .suspended (.io op)) (g : Frame)
    : (m.handleCqe op f).frames g
        = if g = f then some { c with status := .running } else m.frames g := by
  have hf' : ({ m with operations := Function.update m.operations op none } : Machine V).frames f
      = some c := hf
  apply frames_resume hf' hs (by simp) g

theorem calls_handleCqe {op : Operation} (hf : m.frames f = some c)
    (hs : c.status = .suspended (.io op))
    : (m.handleCqe op f).calls = m.calls ++ [(.handleCqe op, f)] := by
  have hf' : ({ m with operations := Function.update m.operations op none } : Machine V).frames f
      = some c := hf
  apply calls_resume hf' hs (by simp)

theorem frames_create [Inhabited V] {v : Var} (g : Frame)
    : (m.create v).frames g
        = if g = m.nextFrame then some ⟨.suspended .initial, 1, default, none⟩ else m.frames g := by
  apply frames_setFrame

theorem coAwait_create [Inhabited V] {v : Var} (hne : f ≠ m.nextFrame)
    : (∀ g, ((m.create v).coAwait f c (some m.nextFrame)).frames g
        = if g = m.nextFrame then
            some ⟨.running, 1, default, some f⟩
          else if g = f then
            some { c with
              status := .suspended (.child m.nextFrame)
              suspensions := c.suspensions + 1
            }
          else
            m.frames g)
        ∧ ((m.create v).coAwait f c (some m.nextFrame)).calls
          = m.calls ++ [(.awaitSuspend, m.nextFrame)] := by
  have hready : (m.create v).awaitReady (some m.nextFrame) = false := by
    unfold awaitReady done
    simp [frames_create]
  unfold coAwait awaitSuspend
  rw [hready]
  simp only [Bool.false_eq_true, if_false]
  generalize hm₁ : (m.create v).suspend f c (.child m.nextFrame) = m₁
  have hframes₁ (g : Frame) : m₁.frames g
      = if g = f then
          some { c with
            status := .suspended (.child m.nextFrame)
            suspensions := c.suspensions + 1
          }
        else if g = m.nextFrame then
          some ⟨.suspended .initial, 1, default, none⟩
        else
          m.frames g := by
    rw [← hm₁, frames_suspend, frames_create]
  have hcalls₁ : m₁.calls = m.calls := by
    rw [← hm₁]
    rfl
  have hcont : m₁.setContinuation m.nextFrame f
      = m₁.setFrame m.nextFrame ⟨.suspended .initial, 1, default, some f⟩ := by
    unfold setContinuation
    rw [hframes₁, if_neg (Ne.symm hne), if_pos rfl]
  rw [hcont]
  have hh : (m₁.setFrame m.nextFrame ⟨.suspended .initial, 1, default, some f⟩).frames m.nextFrame
      = some ⟨.suspended .initial, 1, default, some f⟩ := by
    rw [frames_setFrame, if_pos rfl]
  constructor
  . intro g
    rw [frames_resume hh rfl (by simp), frames_setFrame, hframes₁]
    by_cases hg : g = m.nextFrame
    . simp [hg]
    . simp [hg]
  . rw [calls_resume hh rfl (by simp), ← hcalls₁]
    rfl

end Machine

namespace Execution

open Transition

abbrev Await (V Req Res : Type) := Frame × (V → Body V Req Res)

def remaining : List (Await V Req Res) → V → Dialogue Req Res V
  | [] => .ret
  | (_, k) :: ks => fun value => (k value).direct.bind (remaining ks)

inductive Callers (s : Execution V Req Res)
    : Option Frame → Frame → List (Await V Req Res) → Prop where
  | root : Callers s none 0 []
  | cons {f h : Frame} {c : Coroutine V} {k : V → Body V Req Res} {ks : List (Await V Req Res)} :
      f < h → s.machine.frames f = some c → c.status = .suspended (.child h) →
      s.code f = some (.awaitTask h k) → Callers s c.continuation f ks →
      Callers s (some f) h ((f, k) :: ks)

variable {s s' : Execution V Req Res} {f g h : Frame} {c : Coroutine V} {cont : Option Frame}
  {ks : List (Await V Req Res)} {extra : List Frame} {reqs : List Req} {p : Dialogue Req Res V}

theorem Callers.lt (hcall : Callers s cont h ks) : ∀ g ∈ ks.map Prod.fst, g < h := by
  induction hcall with
  | root => simp
  | cons hlt _ _ _ _ ih =>
    intro g hg
    rw [List.map_cons, List.mem_cons] at hg
    rcases hg with rfl | hg
    . exact hlt
    . apply Nat.lt_trans (ih g hg) hlt

theorem Callers.waiting (hcall : Callers s cont h ks)
    : ∀ g ∈ ks.map Prod.fst, ∃ i k, s.machine.At g (.child i) ∧ s.code g = some (.awaitTask i k) := by
  induction hcall with
  | root => simp
  | cons _ hf hs hcode _ ih =>
    intro g hg
    rw [List.map_cons, List.mem_cons] at hg
    rcases hg with rfl | hg
    . exact ⟨_, _, ⟨_, hf, hs⟩, hcode⟩
    . apply ih g hg

theorem Callers.congr (hcall : Callers s cont h ks)
    (hframes : ∀ g < h, s'.machine.frames g = s.machine.frames g)
    (hcode : ∀ g < h, s'.code g = s.code g)
    : Callers s' cont h ks := by
  induction hcall with
  | root => exact .root
  | cons hlt hf hs hc _ ih =>
    apply Callers.cons hlt
    . rw [hframes _ hlt, hf]
    . exact hs
    . rw [hcode _ hlt, hc]
    . apply ih
      . intro g hg
        apply hframes g (Nat.lt_trans hg hlt)
      . intro g hg
        apply hcode g (Nat.lt_trans hg hlt)

-- what the active coroutine is about to do, with the frame that it still has to give up
inductive Turn (s : Execution V Req Res) (f : Frame) (c : Coroutine V) (ks : List (Await V Req Res))
    : List Frame → List Req → Dialogue Req Res V → Prop where
  | body {b : Body V Req Res} :
      c.status = .running → s.code f = some (.body b) → Turn s f c ks [] [] (b.direct.bind (remaining ks))
  | waiting {op : Operation} {req : Req} {k : Res → Body V Req Res} :
      c.status = .suspended (.io op) → s.code f = some (.awaitIo op k) →
      s.machine.operations op = some f → s.pending op = some req →
      Turn s f c ks [] [req] (.ask req fun res => (k res).direct.bind (remaining ks))
  | answered {op : Operation} {k : Res → Body V Req Res} {res : Res} :
      c.status = .running → s.code f = some (.awaitIo op k) → s.results op = some res →
      Turn s f c ks [] [] ((k res).direct.bind (remaining ks))
  | returned {h : Frame} {k : V → Body V Req Res} {ch : Coroutine V} :
      c.status = .running → s.code f = some (.awaitTask h k) → f < h →
      s.machine.frames h = some ch → ch.status = .suspended .final →
      Turn s f c ks [h] [] ((k ch.value).direct.bind (remaining ks))

theorem Turn.alive (hturn : Turn s f c ks extra reqs p) {g : Frame} (hg : g ∈ extra)
    : s.machine.At g .final := by
  cases hturn with
  | returned _ _ _ hh hsh =>
    rw [List.mem_singleton] at hg
    rw [hg]
    exact ⟨_, hh, hsh⟩
  | _ => simp at hg

structure Stack (s : Execution V Req Res) (f : Frame) (c : Coroutine V)
    (ks : List (Await V Req Res)) (extra : List Frame) : Prop where
  frame : s.machine.frames f = some c
  callers : Callers s c.continuation f ks
  alive : ∀ g, s.machine.frames g ≠ none → g = f ∨ g ∈ ks.map Prod.fst ∨ g ∈ extra

structure Done (s : Execution V Req Res) (value : V) : Prop where
  root : ∃ c, s.machine.frames 0 = some c ∧ c.status = .suspended .final ∧ c.value = value
  alone : ∀ g, s.machine.frames g ≠ none → g = 0

structure Kept [Inhabited V] (s : Execution V Req Res) : Prop where
  reached : ∃ trace, Run (restrict Machine.Disciplined (ofStep Machine.step)) Machine.init trace s.machine
  named : ∀ g, s.machine.tasks g = (s.machine.frames g).map fun _ => some g
  numbered : ∀ op g, s.machine.operations op = some g → op < s.nextOp

section Turns

variable {req : Req} {res : Res} {k : Res → Body V Req Res} {value : V}

theorem Stack.setCode (hstack : Stack s f c ks []) (code : Option (Code V Req Res))
    : Stack (s.setCode f code) f c ks [] := by
  constructor
  . exact hstack.frame
  . apply hstack.callers.congr
    . intro g _
      rfl
    . intro g hg
      apply Function.update_of_ne (Nat.ne_of_lt hg)
  . exact hstack.alive

theorem Stack.advance {c' : Coroutine V} (hstack : Stack s f c ks [])
    (hframes : ∀ g, s'.machine.frames g = if g = f then some c' else s.machine.frames g)
    (hcont : c'.continuation = c.continuation) (hcode : ∀ g, g ≠ f → s'.code g = s.code g)
    : Stack s' f c' ks [] := by
  constructor
  . rw [hframes, if_pos rfl]
  . rw [hcont]
    apply hstack.callers.congr
    . intro g hg
      rw [hframes, if_neg (Nat.ne_of_lt hg)]
    . intro g hg
      apply hcode g (Nat.ne_of_lt hg)
  . intro g hg
    rw [hframes] at hg
    split at hg
    . next heq => exact .inl heq
    . apply hstack.alive g hg

theorem Stack.request (hstack : Stack s f c ks [])
    : Stack (s.request f c req k) f
        { c with status := .suspended (.io s.nextOp), suspensions := c.suspensions + 1 } ks [] := by
  apply hstack.advance
  . intro g
    apply Machine.frames_suspend
  . rfl
  . intro g hne
    apply Function.update_of_ne hne

theorem Turn.request {c' : Coroutine V} (hs : c'.status = .suspended (.io s.nextOp))
    : Turn (s.request f c req k) f c' ks [] [req] (.ask req fun res => (k res).direct.bind (remaining ks)) := by
  apply Turn.waiting hs
  . apply Function.update_self
  . apply Function.update_self
  . apply Function.update_self

theorem Stack.exit (hstack : Stack s f c ks [])
    : Stack (s.exit f c req k res) f
        { c with status := .running, suspensions := c.suspensions + 1 } ks [] := by
  apply hstack.advance
  . intro g
    apply Machine.frames_exitIo
  . rfl
  . intro g hne
    apply Function.update_of_ne hne

theorem Turn.exit {c' : Coroutine V} (hs : c'.status = .running)
    : Turn (s.exit f c req k res) f c' ks [] [] ((k res).direct.bind (remaining ks)) := by
  apply Turn.answered hs
  . apply Function.update_self
  . apply Function.update_self

theorem Stack.complete {op : Operation} (hstack : Stack s f c ks [])
    (hs : c.status = .suspended (.io op))
    : Stack (s.complete op f req res) f { c with status := .running } ks [] := by
  apply hstack.advance
  . intro g
    apply Machine.frames_handleCqe hstack.frame hs
  . rfl
  . intro g _
    rfl

theorem Turn.complete {op : Operation} {c' : Coroutine V} (hs : c'.status = .running)
    (hcode : s.code f = some (.awaitIo op k))
    : Turn (s.complete op f req res) f c' ks [] [] ((k res).direct.bind (remaining ks)) := by
  have hcode : (s.complete op f req res).code f = some (.awaitIo op k) := hcode
  apply Turn.answered hs hcode
  apply Function.update_self

theorem Done.coReturn (hstack : Stack s f c [] []) (hf : f = 0) (hc : c.continuation = none)
    : Done (s.coReturn f c value) value := by
  subst hf
  have hframes (g : Frame) : (s.machine.coReturn 0 c value).frames g = _ :=
    Machine.frames_coReturn_root hc g
  constructor
  . refine ⟨⟨.suspended .final, c.suspensions + 1, value, none⟩, ?_, rfl, rfl⟩
    apply (hframes 0).trans
    rw [if_pos rfl]
  . intro g hg
    have hg : (s.machine.coReturn 0 c value).frames g ≠ none := hg
    rw [hframes] at hg
    split at hg
    . next heq => exact heq
    . simpa using hstack.alive g hg

theorem Stack.coReturn {cg : Coroutine V} {kv : V → Body V Req Res}
    (hstack : Stack s f c ((g, kv) :: ks) []) (hc : c.continuation = some g) (hlt : g < f)
    (hg : s.machine.frames g = some cg) (hsg : cg.status = .suspended (.child f))
    (hcg : Callers s cg.continuation g ks) (value : V)
    : Stack (s.coReturn f c value) g { cg with status := .running } ks [f]
        ∧ (s.coReturn f c value).machine.frames f
          = some ⟨.suspended .final, c.suspensions + 1, value, some g⟩ := by
  have hframes (i : Frame) : (s.machine.coReturn f c value).frames i = _ :=
    Machine.frames_coReturn hc hg hsg (Nat.ne_of_lt hlt) i
  refine ⟨⟨?_, ?_, ?_⟩, ?_⟩
  . apply (hframes g).trans
    rw [if_pos rfl]
  . apply hcg.congr
    . intro i hi
      apply (hframes i).trans
      rw [if_neg (Nat.ne_of_lt hi), if_neg (Nat.ne_of_lt (Nat.lt_trans hi hlt))]
    . intro i hi
      apply Function.update_of_ne (Nat.ne_of_lt (Nat.lt_trans hi hlt))
  . intro i hi
    have hi : (s.machine.coReturn f c value).frames i ≠ none := hi
    rw [hframes] at hi
    split at hi
    . next heq => exact .inl heq
    . split at hi
      . next heq => simp [heq]
      . have := hstack.alive i hi
        simp_all
  . apply (hframes f).trans
    rw [if_neg (Nat.ne_of_gt hlt), if_pos rfl]

theorem Stack.call [Inhabited V] {child : Body V Req Res} {kv : V → Body V Req Res}
    (hstack : Stack s f c ks []) (hlt : f < s.machine.nextFrame)
    : Stack (s.call f c child kv) s.machine.nextFrame ⟨.running, 1, default, some f⟩ ((f, kv) :: ks) [] := by
  have hne := Nat.ne_of_lt hlt
  have hframes := (Machine.coAwait_create (m := s.machine) (c := c) (v := s.machine.nextFrame) hne).1
  constructor
  . apply (hframes _).trans
    rw [if_pos rfl]
  . apply Callers.cons hlt
    . apply (hframes f).trans
      rw [if_neg hne, if_pos rfl]
    . rfl
    . apply Function.update_self
    . apply hstack.callers.congr
      . intro i hi
        apply (hframes i).trans
        rw [if_neg (Nat.ne_of_lt (Nat.lt_trans hi hlt)), if_neg (Nat.ne_of_lt hi)]
      . intro i hi
        unfold Execution.call Execution.setCode
        dsimp only
        rw [Function.update_of_ne (Nat.ne_of_lt hi),
          Function.update_of_ne (Nat.ne_of_lt (Nat.lt_trans hi hlt))]
  . intro i hi
    have hi := (hframes i) ▸ hi
    split at hi
    . next heq => exact .inl heq
    . split at hi
      . next heq => simp [heq]
      . have := hstack.alive i hi
        simp_all

theorem Turn.call [Inhabited V] {child : Body V Req Res} {kv : V → Body V Req Res}
    {c' : Coroutine V} (hs : c'.status = .running) (hne : f ≠ s.machine.nextFrame)
    : Turn (s.call f c child kv) s.machine.nextFrame c' ((f, kv) :: ks) [] []
        ((Body.call child kv).direct.bind (remaining ks)) := by
  rw [Body.direct_call, Dialogue.bind_assoc]
  apply Turn.body hs
  unfold Execution.call Execution.setCode
  dsimp only
  rw [Function.update_of_ne (Ne.symm hne), Function.update_self]

theorem Stack.yield {ch : Coroutine V} {kv : V → Body V Req Res}
    (hstack : Stack s f c ks [h]) (hlt : f < h)
    : Stack (s.yield f h ch kv) f c ks [] := by
  have hframes (i : Frame) : (s.yield f h ch kv).machine.frames i
      = if i = h then none else s.machine.frames i := by
    apply Function.update_apply
  constructor
  . rw [hframes, if_neg (Nat.ne_of_lt hlt), hstack.frame]
  . apply hstack.callers.congr
    . intro i hi
      rw [hframes, if_neg (Nat.ne_of_lt (Nat.lt_trans hi hlt))]
    . intro i hi
      apply Function.update_of_ne (Nat.ne_of_lt hi)
  . intro i hi
    rw [hframes] at hi
    split at hi
    . simp at hi
    . have := hstack.alive i hi
      simp_all

theorem Turn.yield {ch : Coroutine V} {kv : V → Body V Req Res} (hs : c.status = .running)
    : Turn (s.yield f h ch kv) f c ks [] [] ((kv ch.value).direct.bind (remaining ks)) := by
  apply Turn.body hs
  apply Function.update_self

end Turns

section Kept

variable [Inhabited V] {req : Req} {res : Res} {k : Res → Body V Req Res} {value : V}

theorem Kept.sound (hkept : Kept s) : s.machine.Sound := by
  rcases hkept.reached with ⟨trace, hrun⟩
  apply Machine.run_sound hrun

theorem Kept.lt (hkept : Kept s) (hf : s.machine.frames f = some c) : f < s.machine.nextFrame := by
  apply hkept.sound.toRecorded.lt hf

theorem Kept.advance (hkept : Kept s) {act : Machine.Act V}
    (hstep : s.machine.step act = some (s'.machine, ())) (hdisc : s.machine.Disciplined act)
    (htasks : s'.machine.tasks = s.machine.tasks)
    (hframes : ∀ g, s'.machine.frames g = none ↔ s.machine.frames g = none)
    (hops : ∀ op g, s'.machine.operations op = some g → op < s'.nextOp)
    : Kept s' := by
  constructor
  . rcases hkept.reached with ⟨trace, hrun⟩
    exact ⟨_, .snoc hrun ⟨hdisc, hstep⟩⟩
  . intro g
    rw [htasks, hkept.named]
    have := hframes g
    cases h : s.machine.frames g <;> cases h' : s'.machine.frames g <;> simp_all
  . exact hops

theorem Kept.fresh (hkept : Kept s) : s.machine.operations s.nextOp = none := by
  cases h : s.machine.operations s.nextOp with
  | none => rfl
  | some g => exact absurd (hkept.numbered _ g h) (Nat.lt_irrefl _)

theorem Kept.setCode (hkept : Kept s) (code : Option (Code V Req Res)) : Kept (s.setCode f code) :=
  ⟨hkept.reached, hkept.named, hkept.numbered⟩

theorem Kept.request (hkept : Kept s) (hf : s.machine.frames f = some c) (hs : c.status = .running)
    : Kept (s.request f c req k) := by
  have hframes (g : Frame) : (s.request f c req k).machine.frames g = _ :=
    Machine.frames_suspend g
  have hstep : s.machine.step (.coAwaitIo f s.nextOp)
      = some ((s.request f c req k).machine, ()) := by
    simp only [Machine.step]
    rw [Machine.active_of_running hf hs, hkept.fresh]
    rfl
  apply hkept.advance hstep trivial
  . rfl
  . intro g
    rw [hframes]
    split
    . next heq => simp [heq, hf]
    . rfl
  . intro op g hop
    have hop : Function.update s.machine.operations s.nextOp (some f) op = some g := hop
    rw [Function.update_apply] at hop
    split at hop
    . next heq =>
      rw [heq]
      apply Nat.lt_succ_self
    . apply Nat.lt_succ_of_lt (hkept.numbered op g hop)

theorem Kept.exit (hkept : Kept s) (hf : s.machine.frames f = some c) (hs : c.status = .running)
    : Kept (s.exit f c req k res) := by
  have hframes (g : Frame) : (s.exit f c req k res).machine.frames g = _ :=
    Machine.frames_exitIo g
  have hrest : (s.machine.exitIo f c s.nextOp).tasks = _ ∧ (s.machine.exitIo f c s.nextOp).operations = _
      ∧ _ := Machine.rest_resume
  have hstep : s.machine.step (.exitIo f s.nextOp)
      = some ((s.exit f c req k res).machine, ()) := by
    simp only [Machine.step]
    rw [Machine.active_of_running hf hs, hkept.fresh]
    rfl
  apply hkept.advance hstep trivial
  . exact hrest.1
  . intro g
    rw [hframes]
    split
    . next heq => simp [heq, hf]
    . rfl
  . intro op g hop
    apply Nat.lt_succ_of_lt
    apply hkept.numbered op g (hrest.2.1 ▸ hop)

theorem Kept.complete (hkept : Kept s) {op : Operation} (hop : s.machine.operations op = some f)
    : Kept (s.complete op f req res) := by
  rcases hkept.sound.awaited op f hop with ⟨c, hf, hs⟩
  have hframes (g : Frame) : (s.complete op f req res).machine.frames g = _ :=
    Machine.frames_handleCqe hf hs g
  have hrest : (s.machine.handleCqe op f).tasks = _ ∧ (s.machine.handleCqe op f).operations = _ ∧ _ :=
    Machine.rest_resume
  have hstep : s.machine.step (.handleCqe op)
      = some ((s.complete op f req res).machine, ()) := by
    simp only [Machine.step]
    rw [hop]
    rfl
  apply hkept.advance hstep trivial
  . exact hrest.1
  . intro g
    rw [hframes]
    split
    . next heq => simp [heq, hf]
    . rfl
  . intro op' g hop'
    have hop' : (s.machine.handleCqe op f).operations op' = some g := hop'
    rw [hrest.2.1] at hop'
    dsimp only at hop'
    rw [Function.update_apply] at hop'
    split at hop'
    . simp at hop'
    . apply hkept.numbered op' g hop'

theorem Kept.caller (hkept : Kept s) (hf : s.machine.frames f = some c) (hs : c.status = .running)
    (hc : c.continuation = some g)
    : ∃ cg, s.machine.frames g = some cg ∧ cg.status = .suspended (.child f) ∧ g ≠ f := by
  rcases hkept.sound.continued f c g hf hc with hfinal | ⟨cg, hg, hsg⟩
  . simp [hs] at hfinal
  . refine ⟨cg, hg, hsg, ?_⟩
    rintro rfl
    simp_all

theorem Kept.coReturn (hkept : Kept s) (hf : s.machine.frames f = some c) (hs : c.status = .running)
    : Kept (s.coReturn f c value) := by
  have hstep : s.machine.step (.coReturn f value)
      = some ((s.coReturn f c value).machine, ()) := by
    simp only [Machine.step]
    rw [Machine.active_of_running hf hs]
    rfl
  have hrest : (s.machine.coReturn f c value).tasks = s.machine.tasks
      ∧ (s.machine.coReturn f c value).operations = s.machine.operations := by
    unfold Machine.coReturn
    dsimp only
    split
    . exact ⟨rfl, rfl⟩
    . exact ⟨Machine.rest_resume.1, Machine.rest_resume.2.1⟩
  apply hkept.advance hstep trivial hrest.1
  . intro i
    cases hc : c.continuation with
    | none =>
      have hframes : (s.coReturn f c value).machine.frames i = _ :=
        Machine.frames_coReturn_root hc i
      rw [hframes]
      split
      . next heq => simp [heq, hf]
      . rfl
    | some g =>
      rcases hkept.caller hf hs hc with ⟨cg, hg, hsg, hne⟩
      have hframes : (s.coReturn f c value).machine.frames i = _ :=
        Machine.frames_coReturn hc hg hsg hne i
      rw [hframes]
      split
      . next heq => simp [heq, hg]
      . split
        . next heq => simp [heq, hf]
        . rfl
  . intro op g hop
    apply hkept.numbered op g
    rw [← hrest.2]
    exact hop

theorem Kept.call (hkept : Kept s) (hf : s.machine.frames f = some c) (hs : c.status = .running)
    {child : Body V Req Res} {kv : V → Body V Req Res}
    : Kept (s.call f c child kv) := by
  have hne := Nat.ne_of_lt (hkept.lt hf)
  generalize hh : s.machine.nextFrame = h at hne
  have hnone : s.machine.frames h = none := by
    apply hkept.sound.fresh
    apply Nat.le_of_eq hh
  have hnamed : s.machine.tasks h = none := by simp [hkept.named, hnone]
  have htasks (g : Frame) : (s.machine.create h).tasks g
      = if g = h then some (some h) else s.machine.tasks g := by
    have : (s.machine.create h).tasks g = _ := Function.update_apply _ _ _ _
    rw [this, hh]
  have hframes (g : Frame) : (s.machine.create h).frames g
      = if g = h then some ⟨.suspended .initial, 1, default, none⟩ else s.machine.frames g := by
    rw [Machine.frames_create, hh]
  have hawait : (s.call f c child kv).machine = (s.machine.create h).coAwait f c (some h) := by
    unfold Execution.call
    rw [hh]
  have hready : (s.machine.create h).awaitReady (some h) = false := by
    unfold Machine.awaitReady Machine.done
    simp [hframes]
  have hsame : (s.call f c child kv).machine.tasks = (s.machine.create h).tasks
      ∧ (s.call f c child kv).machine.operations = s.machine.operations := by
    rw [hawait]
    unfold Machine.coAwait Machine.awaitSuspend
    rw [hready]
    simp only [Bool.false_eq_true, if_false]
    rw [Machine.rest_resume.1, Machine.rest_resume.2.1]
    unfold Machine.setContinuation
    split <;> exact ⟨rfl, rfl⟩
  constructor
  . rcases hkept.reached with ⟨trace, hrun⟩
    have hcreate : s.machine.step (.create h) = some (s.machine.create h, ()) := by
      simp only [Machine.step]
      rw [hnamed]
    have hstep : (s.machine.create h).step (.coAwait f h)
        = some ((s.call f c child kv).machine, ()) := by
      have hf' : (s.machine.create h).frames f = some c := by rw [hframes, if_neg hne, hf]
      simp only [Machine.step]
      rw [Machine.active_of_running hf' hs, htasks, if_pos rfl, hawait]
    have hinit : s.machine.Disciplined (.create h) := trivial
    have hrest : (s.machine.create h).Disciplined (.coAwait f h) := by
      intro o ho g hg c' hc'
      rw [Option.mem_def] at ho hg hc'
      rw [htasks, if_pos rfl, Option.some.injEq] at ho
      rw [← ho, Option.some.injEq] at hg
      rw [← hg, hframes, if_pos rfl, Option.some.injEq] at hc'
      rw [← hc']
      exact ⟨.initial, by simp, rfl⟩
    exact ⟨_, .snoc (.snoc hrun ⟨hinit, hcreate⟩) ⟨hrest, hstep⟩⟩
  . intro g
    subst hh
    rw [hsame.1, hawait, htasks, (Machine.coAwait_create hne).1, hkept.named]
    split
    . next heq => simp [heq]
    . split
      . next heq => simp [heq, hf]
      . rfl
  . intro op g hop
    rw [hsame.2] at hop
    apply hkept.numbered op g hop

theorem Kept.yield (hkept : Kept s) {ch : Coroutine V} (hh : s.machine.frames h = some ch)
    (hs : ch.status = .suspended .final) {kv : V → Body V Req Res}
    : Kept (s.yield f h ch kv) := by
  have hnamed : s.machine.tasks h = some (some h) := by simp [hkept.named, hh]
  constructor
  . rcases hkept.reached with ⟨trace, hrun⟩
    have hstep : s.machine.step (.destroy h) = some ((s.yield f h ch kv).machine, ()) := by
      simp only [Machine.step]
      rw [hnamed]
      rfl
    have hrest : s.machine.Disciplined (.destroy h) := by
      intro o ho g hg c' hc'
      rw [Option.mem_def] at ho hg hc'
      rw [hnamed, Option.some.injEq] at ho
      rw [← ho, Option.some.injEq] at hg
      rw [← hg, hh, Option.some.injEq] at hc'
      rw [← hc']
      exact ⟨.final, by simp, hs⟩
    exact ⟨_, .snoc hrun ⟨hrest, hstep⟩⟩
  . intro g
    have htasks : (s.yield f h ch kv).machine.tasks g = _ := Function.update_apply _ _ _ _
    have hframes : (s.yield f h ch kv).machine.frames g = _ := Function.update_apply _ _ _ _
    rw [htasks, hframes]
    split
    . rfl
    . apply hkept.named
  . exact hkept.numbered

end Kept

end Execution

end Task

end Sfap
