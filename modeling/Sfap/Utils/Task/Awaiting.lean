import Sfap.Utils.Task.Books

/-!
This module contains the theorem that awaiting the tasks of a tree comes to the same as calling them.
-/

namespace Sfap

namespace Task

namespace Execution

open Transition

variable {V Req Res : Type} {s s' : Execution V Req Res} {f g h : Frame} {c : Coroutine V}

variable [Inhabited V] {ks : List (Await V Req Res)} {extra : List Frame} {reqs : List Req}
  {p : Dialogue Req Res V}

structure Finished (s : Execution V Req Res) (value : V) : Prop where
  kept : Kept s
  books : Books s
  done : Done s value
  requests : s.requests = s.history.map Prod.fst

inductive Represents (s : Execution V Req Res) : Dialogue Req Res V → Prop where
  | active {f : Frame} {c : Coroutine V} {ks : List (Await V Req Res)} {extra : List Frame}
      {reqs : List Req} {p : Dialogue Req Res V} :
      Config s f c ks extra reqs → Turn s f c ks extra reqs p → Represents s p
  | finished {value : V} : Finished s value → Represents s (.ret value)

theorem Config.only {g : Frame} {cg : Coroutine V} (hconf : Config s f c ks extra reqs)
    (hturn : Turn s f c ks extra reqs p) (hg : s.machine.frames g = some cg)
    (hchild : ∀ h, cg.status ≠ .suspended (.child h)) (hfinal : cg.status ≠ .suspended .final)
    : g = f ∧ cg = c := by
  have hgf : g = f := by
    rcases hconf.stack.alive g (by simp [hg]) with heq | hmem | hmem
    . exact heq
    . rcases hconf.stack.callers.waiting g hmem with ⟨h, _, ⟨c', hc', hs'⟩, _⟩
      simp_all
    . rcases hturn.alive hmem with ⟨c', hc', hs'⟩
      simp_all
  refine ⟨hgf, ?_⟩
  have := hconf.stack.frame
  rw [← hgf, hg, Option.some.injEq] at this
  exact this

theorem Config.active_eq {g : Frame} {cg : Coroutine V} (hconf : Config s f c ks extra reqs)
    (hturn : Turn s f c ks extra reqs p) (hg : s.machine.active g = some cg)
    : g = f ∧ cg = c ∧ c.status = .running := by
  rcases Machine.active_eq hg with ⟨hg, hs⟩
  rcases hconf.only hturn hg (by simp [hs]) (by simp [hs]) with ⟨hgf, hcg⟩
  exact ⟨hgf, hcg, hcg ▸ hs⟩

theorem Finished.no_step {value : V} {input : Input Res} (hfin : Finished s value)
    : s.step input = none := by
  have hfinal (g : Frame) (c : Coroutine V) (hg : s.machine.frames g = some c)
      : c.status = .suspended .final := by
    rcases hfin.done.root with ⟨c₀, h₀, hs₀, _⟩
    have := hfin.done.alone g (by simp [hg])
    subst this
    rw [hg, Option.some.injEq] at h₀
    rw [h₀, hs₀]
  have hactive (g : Frame) : s.machine.active g = none := by
    cases hg : s.machine.active g with
    | none => rfl
    | some c =>
      rcases Machine.active_eq hg with ⟨hg, hs⟩
      have := hfinal g c hg
      simp [hs] at this
  have hops (op : Operation) : s.machine.operations op = none := by
    cases hop : s.machine.operations op with
    | none => rfl
    | some g =>
      rcases hfin.kept.sound.awaited op g hop with ⟨c, hg, hs⟩
      have := hfinal g c hg
      simp [hs] at this
  cases input <;> simp [Execution.step, hactive, hops]

inductive Returned (s : Execution V Req Res) (f : Frame) (value : V)
    : List (Await V Req Res) → Prop where
  | root : Finished s value → Returned s f value []
  | caller {g : Frame} {cg ch : Coroutine V} {k : V → Body V Req Res}
      {ks : List (Await V Req Res)} :
      Config s g cg ks [f] [] → cg.status = .running → s.code g = some (.awaitTask f k) → g < f →
      s.machine.frames f = some ch → ch.status = .suspended .final → ch.value = value →
      Returned s f value ((g, k) :: ks)

theorem Returned.represents {value : V} (hret : Returned s f value ks)
    : Represents s (remaining ks value) := by
  cases hret with
  | root hfin => exact .finished hfin
  | caller hconf hs hcode hlt hh hsh hvalue =>
    rw [← hvalue]
    exact .active hconf (.returned hs hcode hlt hh hsh)

theorem Config.coReturn {value : V} (hconf : Config s f c ks [] []) (hs : c.status = .running)
    (hcode : s.code f = some (.body (.coReturn value)))
    : Returned (s.coReturn f c value) f value ks := by
  have hf := hconf.stack.frame
  have hkept : (s.coReturn f c value).Kept := hconf.kept.coReturn hf hs
  have hbooks : (s.coReturn f c value).Books := hconf.books_coReturn hs hcode
  have hcallers := hconf.stack.callers
  generalize hc : c.continuation = cont at hcallers
  cases hcallers with
  | root =>
    have hreqs := hconf.requests
    rw [List.append_nil] at hreqs
    exact .root ⟨hkept, hbooks, Done.coReturn hconf.stack rfl hc, hreqs⟩
  | @cons g _ _ k _ hlt hg hsg hcodeg hcallers =>
    have hstack := hconf.stack.coReturn hc hlt hg hsg hcallers value
    have hcode' : (s.coReturn f c value).code g = some (.awaitTask f k) :=
      (Function.update_of_ne (Nat.ne_of_lt hlt) _ _).trans hcodeg
    exact .caller ⟨hkept, hbooks, hstack.1, hconf.requests⟩ rfl hcode' hlt hstack.2 rfl rfl

theorem step_coReturn {value : V} (hf : s.machine.frames f = some c) (hs : c.status = .running)
    (hcode : s.code f = some (.body (.coReturn value)))
    : s.step (.run f) = some (s.coReturn f c value, ()) := by
  simp only [Execution.step]
  rw [Machine.active_of_running hf hs, hcode]

theorem step_request {req : Req} {k : Res → Body V Req Res} (hf : s.machine.frames f = some c)
    (hs : c.status = .running) (hcode : s.code f = some (.body (.io req k)))
    : s.step (.run f) = some (s.request f c req k, ()) := by
  simp only [Execution.step]
  rw [Machine.active_of_running hf hs, hcode]

theorem step_call {child : Body V Req Res} {k : V → Body V Req Res}
    (hf : s.machine.frames f = some c) (hs : c.status = .running)
    (hcode : s.code f = some (.body (.call child k)))
    : s.step (.run f) = some (s.call f c child k, ()) := by
  simp only [Execution.step]
  rw [Machine.active_of_running hf hs, hcode]

theorem step_answer {op : Operation} {res : Res} {k : Res → Body V Req Res}
    (hf : s.machine.frames f = some c) (hs : c.status = .running)
    (hcode : s.code f = some (.awaitIo op k)) (hres : s.results op = some res)
    : s.step (.run f) = some (s.setCode f (some (.body (k res))), ()) := by
  simp only [Execution.step]
  rw [Machine.active_of_running hf hs, hcode]
  dsimp only
  rw [hres]

theorem step_yield {ch : Coroutine V} {k : V → Body V Req Res}
    (hf : s.machine.frames f = some c) (hs : c.status = .running)
    (hcode : s.code f = some (.awaitTask h k)) (hh : s.machine.frames h = some ch)
    : s.step (.run f) = some (s.yield f h ch k, ()) := by
  simp only [Execution.step]
  rw [Machine.active_of_running hf hs, hcode]
  dsimp only
  rw [hh]

theorem step_complete {op : Operation} {req : Req} (hop : s.machine.operations op = some f)
    (hreq : s.pending op = some req) (res : Res)
    : s.step (.complete op res) = some (s.complete op f req res, ()) := by
  simp only [Execution.step]
  rw [hop, hreq]

theorem Represents.step {input : Input Res} (hrep : Represents s p)
    (hstep : s.step input = some (s', ()))
    : (s'.history = s.history ∧ Represents s' p)
        ∨ ∃ req res k, p = .ask req k ∧ s'.history = s.history ++ [(req, res)]
          ∧ Represents s' (k res) := by
  cases hrep with
  | finished hfin =>
    rw [hfin.no_step] at hstep
    simp at hstep
  | @active f c ks extra reqs p hconf hturn =>
    have hf := hconf.stack.frame
    cases input with
    | run g =>
      cases hg : s.machine.active g with
      | none => simp [Execution.step, hg] at hstep
      | some cg =>
        rcases hconf.active_eq hturn hg with ⟨rfl, rfl, hs⟩
        left
        cases hturn with
        | @body b _ hcode =>
          cases b with
          | coReturn value =>
            rw [step_coReturn hf hs hcode] at hstep
            simp only [Option.some.injEq, Prod.mk.injEq, and_true] at hstep
            rw [← hstep]
            exact ⟨rfl, (hconf.coReturn hs hcode).represents⟩
          | io req k =>
            rw [step_request hf hs hcode] at hstep
            simp only [Option.some.injEq, Prod.mk.injEq, and_true] at hstep
            rw [← hstep]
            exact ⟨rfl, .active (hconf.request hs hcode) (Turn.request rfl)⟩
          | call child k =>
            rw [step_call hf hs hcode] at hstep
            simp only [Option.some.injEq, Prod.mk.injEq, and_true] at hstep
            rw [← hstep]
            have hne := Nat.ne_of_lt (hconf.kept.lt hf)
            exact ⟨rfl, .active (hconf.call hs hcode) (Turn.call rfl hne)⟩
        | waiting hs' _ _ _ => simp [hs] at hs'
        | answered _ hcode hres =>
          rw [step_answer hf hs hcode hres] at hstep
          simp only [Option.some.injEq, Prod.mk.injEq, and_true] at hstep
          rw [← hstep]
          exact ⟨rfl, .active (hconf.answer hs hcode _) (.body hs (Function.update_self _ _ _))⟩
        | returned _ hcode hlt hh hsh =>
          rw [step_yield hf hs hcode hh] at hstep
          simp only [Option.some.injEq, Prod.mk.injEq, and_true] at hstep
          rw [← hstep]
          exact ⟨rfl, .active (hconf.yield hs hcode hlt hh hsh) (Turn.yield hs)⟩
    | exit g res =>
      cases hg : s.machine.active g with
      | none => simp [Execution.step, hg] at hstep
      | some cg =>
        rcases hconf.active_eq hturn hg with ⟨rfl, rfl, hs⟩
        simp only [Execution.step] at hstep
        rw [hg] at hstep
        split at hstep
        . next c' req k hc hcode =>
          rw [Option.some.injEq] at hc
          subst hc
          simp only [Option.some.injEq, Prod.mk.injEq, and_true] at hstep
          rw [← hstep]
          right
          cases hturn with
          | body _ hcode' =>
            rw [hcode, Option.some.injEq, Code.body.injEq] at hcode'
            subst hcode'
            exact ⟨req, res, _, rfl, rfl, .active (hconf.exit hs hcode) (Turn.exit rfl)⟩
          | waiting hs' _ _ _ => simp [hs] at hs'
          | answered _ hcode' _ => simp [hcode] at hcode'
          | returned _ hcode' _ _ _ => simp [hcode] at hcode'
        . simp at hstep
    | complete op res =>
      right
      simp only [Execution.step] at hstep
      split at hstep
      . next coro req hop hreq =>
        simp only [Option.some.injEq, Prod.mk.injEq, and_true] at hstep
        rw [← hstep]
        rcases hconf.kept.sound.awaited op coro hop with ⟨cg, hg, hsg⟩
        rcases hconf.only hturn hg (by simp [hsg]) (by simp [hsg]) with ⟨rfl, rfl⟩
        cases hturn with
        | body hs _ => simp [hsg] at hs
        | @waiting op' req' k hs hcode hop' hreq' =>
          rw [hsg, Status.suspended.injEq, Point.io.injEq] at hs
          subst hs
          rw [hreq, Option.some.injEq] at hreq'
          subst hreq'
          exact ⟨req, res, _, rfl, rfl, .active (hconf.complete hsg hop hcode res) (Turn.complete rfl hcode)⟩
        | answered hs _ _ => simp [hsg] at hs
        | returned hs _ _ _ _ => simp [hsg] at hs
      . simp at hstep

theorem Config.performs {b : Body V Req Res} {history : List (Req × Res)} {value : V}
    (hconf : Config s f c ks [] []) (hs : c.status = .running) (hcode : s.code f = some (.body b))
    (hperf : b.direct.Performs history (.ret value))
    : ∃ trace s', Run (ofStep step) s trace s' ∧ s'.history = s.history ++ history
        ∧ Returned s' f value ks := by
  induction b generalizing s f c ks history value with
  | coReturn v =>
    rcases Dialogue.Performs.ret_iff.mp hperf with ⟨rfl, rfl⟩
    have hstep := step_coReturn hconf.stack.frame hs hcode
    exact ⟨_, _, .snoc .nil hstep, (List.append_nil _).symm, hconf.coReturn hs hcode⟩
  | io req k ih =>
    cases hperf with
    | @ask _ res _ history _ hperf =>
      have hstep₁ := step_request hconf.stack.frame hs hcode
      have hconf₁ := hconf.request hs hcode
      generalize hs₁ : s.request f c req k = s₁ at hstep₁ hconf₁
      have hcode₁ : s₁.code f = some (.awaitIo s.nextOp k) := by
        rw [← hs₁]
        apply Function.update_self
      have hop₁ : s₁.machine.operations s.nextOp = some f := by
        rw [← hs₁]
        apply Function.update_self
      have hreq₁ : s₁.pending s.nextOp = some req := by
        rw [← hs₁]
        apply Function.update_self
      have hstep₂ := step_complete hop₁ hreq₁ res
      have hconf₂ := hconf₁.complete rfl hop₁ hcode₁ res
      have hres₂ : (s₁.complete s.nextOp f req res).results s.nextOp = some res :=
        Function.update_self _ _ _
      have hstep₃ := step_answer hconf₂.stack.frame rfl hcode₁ hres₂
      have hconf₃ := hconf₂.answer rfl hcode₁ res
      rcases ih res hconf₃ rfl (Function.update_self _ _ _) hperf with ⟨trace, s', hrun, hhist, hret⟩
      refine ⟨_, s', .cons hstep₁ (.cons hstep₂ (.cons hstep₃ hrun)), ?_, hret⟩
      rw [hhist, ← hs₁]
      simp [Execution.setCode, Execution.complete, Execution.request]
  | call child k ihchild ihk =>
    rcases Dialogue.Performs.of_bind hperf with ⟨h₁, h₂, a, rfl, hperf₁, hperf₂⟩
    have hlt := hconf.kept.lt hconf.stack.frame
    have hstep₁ := step_call hconf.stack.frame hs hcode
    have hconf₁ := hconf.call hs hcode
    have hcode₁ : (s.call f c child k).code s.machine.nextFrame = some (.body child) := by
      unfold Execution.call Execution.setCode
      dsimp only
      rw [Function.update_of_ne (Nat.ne_of_gt hlt), Function.update_self]
    rcases ihchild hconf₁ rfl hcode₁ hperf₁ with ⟨trace₁, s₂, hrun₁, hhist₁, hret₂⟩
    cases hret₂ with
    | caller hconf₂ hs₂ hcode₂ hlt₂ hh hsh hvalue =>
      have hstep₂ := step_yield hconf₂.stack.frame hs₂ hcode₂ hh
      have hconf₃ := hconf₂.yield hs₂ hcode₂ hlt₂ hh hsh
      rw [← hvalue] at hperf₂
      rcases ihk _ hconf₃ hs₂ (Function.update_self _ _ _) hperf₂ with
        ⟨trace₂, s', hrun₂, hhist₂, hret⟩
      refine ⟨_, s', .cons hstep₁ (hrun₁.append (.cons hstep₂ hrun₂)), ?_, hret⟩
      rw [hhist₂, ← List.append_assoc]
      congr 1

theorem Returned.finish {value result : V} {rest : List (Req × Res)} (hret : Returned s f value ks)
    (hperf : (remaining ks value).Performs rest (.ret result))
    : ∃ trace s', Run (ofStep step) s trace s' ∧ s'.history = s.history ++ rest
        ∧ Finished s' result := by
  induction ks generalizing s f value rest with
  | nil =>
    rcases Dialogue.Performs.ret_iff.mp hperf with ⟨rfl, rfl⟩
    cases hret with
    | root hfin => exact ⟨_, s, .nil, (List.append_nil _).symm, hfin⟩
  | cons x ks ih =>
    cases hret with
    | caller hconf hs hcode hlt hh hsh hvalue =>
      rcases Dialogue.Performs.of_bind hperf with ⟨h₁, h₂, a, rfl, hperf₁, hperf₂⟩
      have hstep := step_yield hconf.stack.frame hs hcode hh
      have hconf₁ := hconf.yield hs hcode hlt hh hsh
      rw [← hvalue] at hperf₁
      rcases hconf₁.performs hs (Function.update_self _ _ _) hperf₁ with
        ⟨trace₁, s₂, hrun₁, hhist₁, hret₂⟩
      rcases ih hret₂ hperf₂ with ⟨trace₂, s', hrun₂, hhist₂, hfin⟩
      refine ⟨_, s', .cons hstep (hrun₁.append hrun₂), ?_, hfin⟩
      rw [hhist₂, hhist₁, List.append_assoc]
      rfl

theorem Config.finish {b : Body V Req Res} {value : V} {rest : List (Req × Res)}
    (hconf : Config s f c ks [] []) (hs : c.status = .running) (hcode : s.code f = some (.body b))
    (hperf : (b.direct.bind (remaining ks)).Performs rest (.ret value))
    : ∃ trace s', Run (ofStep step) s trace s' ∧ s'.history = s.history ++ rest
        ∧ Finished s' value := by
  rcases Dialogue.Performs.of_bind hperf with ⟨h₁, h₂, a, rfl, hperf₁, hperf₂⟩
  rcases hconf.performs hs hcode hperf₁ with ⟨trace₁, s₁, hrun₁, hhist₁, hret⟩
  rcases hret.finish hperf₂ with ⟨trace₂, s', hrun₂, hhist₂, hfin⟩
  refine ⟨_, s', hrun₁.append hrun₂, ?_, hfin⟩
  rw [hhist₂, hhist₁, List.append_assoc]

theorem Config.finish_answered {op : Operation} {res : Res} {k : Res → Body V Req Res} {value : V}
    {rest : List (Req × Res)} (hconf : Config s f c ks [] []) (hs : c.status = .running)
    (hcode : s.code f = some (.awaitIo op k)) (hres : s.results op = some res)
    (hperf : ((k res).direct.bind (remaining ks)).Performs rest (.ret value))
    : ∃ trace s', Run (ofStep step) s trace s' ∧ s'.history = s.history ++ rest
        ∧ Finished s' value := by
  have hstep := step_answer hconf.stack.frame hs hcode hres
  have hconf₁ := hconf.answer hs hcode res
  rcases hconf₁.finish hs (Function.update_self _ _ _) hperf with ⟨trace, s', hrun, hhist, hfin⟩
  exact ⟨_, s', .cons hstep hrun, hhist, hfin⟩

theorem Represents.finish {value : V} {rest : List (Req × Res)} (hrep : Represents s p)
    (hperf : p.Performs rest (.ret value))
    : ∃ trace s', Run (ofStep Execution.step) s trace s' ∧ s'.history = s.history ++ rest
        ∧ Finished s' value := by
  cases hrep with
  | finished hfin =>
    rcases Dialogue.Performs.ret_iff.mp hperf with ⟨rfl, rfl⟩
    exact ⟨_, s, .nil, (List.append_nil _).symm, hfin⟩
  | active hconf hturn =>
    cases hturn with
    | body hs hcode => exact hconf.finish hs hcode hperf
    | @waiting op req k hs hcode hop hreq =>
      cases hperf with
      | @ask _ res _ rest _ hperf =>
        have hstep := step_complete hop hreq res
        have hconf₁ := hconf.complete hs hop hcode res
        rcases hconf₁.finish_answered rfl hcode (Function.update_self _ _ _) hperf with
          ⟨trace, s', hrun, hhist, hfin⟩
        refine ⟨_, s', .cons hstep hrun, ?_, hfin⟩
        rw [hhist]
        simp [Execution.complete]
    | answered hs hcode hres => exact hconf.finish_answered hs hcode hres hperf
    | returned hs hcode hlt hh hsh =>
      have hstep := step_yield hconf.stack.frame hs hcode hh
      have hconf₁ := hconf.yield hs hcode hlt hh hsh
      rcases hconf₁.finish hs (Function.update_self _ _ _) hperf with ⟨trace, s', hrun, hhist, hfin⟩
      exact ⟨_, s', .cons hstep hrun, hhist, hfin⟩

theorem Represents.waits {k : V → Body V Req Res} (hrep : Represents s p)
    (hcode : s.code f = some (.awaitTask h k))
    : s.machine.At f (.child h) ∨ h ∈ s.returned.map Prod.fst := by
  cases hrep with
  | finished hfin =>
    rcases hfin.books.coded f (by simp [hcode]) with ⟨cont, hf⟩
    rcases hfin.done.root with ⟨c, hroot, hs, _⟩
    have hne : s.machine.frames f ≠ none := by
      intro hnone
      simp [glance, hnone] at hf
    rw [hfin.done.alone f hne] at hf
    simp [glance, hroot, hs] at hf
  | active hconf hturn =>
    rcases hconf.books.coded f (by simp [hcode]) with ⟨cont, hf⟩
    have hne : s.machine.frames f ≠ none := by
      intro hnone
      simp [glance, hnone] at hf
    rcases hconf.stack.alive f hne with rfl | hmem | hmem
    . cases hturn with
      | @returned h' _ ch _ hcode' _ hh hsh =>
        right
        rw [hcode'] at hcode
        simp only [Option.some.injEq, Code.awaitTask.injEq] at hcode
        have hglance : s.glance h' = some (ch.continuation, some ch.value) := by
          simp [glance, hh, hsh]
        rw [← hcode.1]
        apply List.mem_map_of_mem (hconf.books.finals h' _ _ hglance)
      | _ => simp_all
    . rcases hconf.stack.callers.waiting f hmem with ⟨i, _, hat, hcode'⟩
      rw [hcode'] at hcode
      simp only [Option.some.injEq, Code.awaitTask.injEq] at hcode
      rw [← hcode.1]
      exact .inl hat
    . rcases hturn.alive hmem with ⟨c, hc, hs⟩
      simp [glance, hc, hs] at hf

theorem Represents.books (hrep : Represents s p) : s.Books := by
  cases hrep with
  | active hconf _ => exact hconf.books
  | finished hfin => exact hfin.books

theorem Represents.kept (hrep : Represents s p) : s.Kept := by
  cases hrep with
  | active hconf _ => exact hconf.kept
  | finished hfin => exact hfin.kept

theorem Represents.of_done {value : V} (hrep : Represents s p) (hdone : Done s value)
    : p = .ret value ∧ ∀ f h, (f, h) ∈ s.awaited → h ∈ s.yielded.map Prod.fst := by
  rcases hdone.root with ⟨c₀, hroot, hs₀, hvalue⟩
  constructor
  . cases hrep with
    | finished hfin =>
      rcases hfin.done.root with ⟨c, hc, _, hv⟩
      rw [hroot, Option.some.injEq] at hc
      rw [← hv, ← hvalue, hc]
    | @active f _ _ _ _ _ hconf hturn =>
      have hf := hconf.stack.frame
      have hzero : f = 0 := hdone.alone f (by simp [hf])
      rw [hzero, hroot, Option.some.injEq] at hf
      rw [hf] at hs₀
      cases hturn <;> simp_all
  . intro f h hmem
    rcases hrep.books.pending f h hmem with hy | ⟨k, hk⟩
    . exact hy
    . rcases hrep.books.coded f (by simp [hk]) with ⟨cont, hcont⟩
      have hne : s.machine.frames f ≠ none := by
        intro hnone
        simp [glance, hnone] at hcont
      rw [hdone.alone f hne] at hcont
      simp [glance, hroot, hs₀] at hcont

theorem Represents.start (b : Body V Req Res) : Represents (start b) b.direct := by
  have hframes (g : Frame) : (Execution.start b).machine.frames g
      = if g = 0 then some ⟨.running, 1, default, none⟩ else none := by
    by_cases hg : g = 0
    . rw [hg]
      rfl
    . rw [if_neg hg]
      have hcreate : (Machine.init.create 0).frames 0 = some (⟨.suspended .initial, 1, default, none⟩
          : Coroutine V) := rfl
      have hresume := Machine.frames_resume (r := .startDetached) hcreate rfl (by simp) g
      have hne : g ≠ (Machine.init : Machine V).nextFrame := hg
      rw [if_neg hg, Machine.frames_create, if_neg hne] at hresume
      exact hresume
  have hcreate : (Machine.init : Machine V).step (.create 0) = some (Machine.init.create 0, ()) := rfl
  have hinit : (Machine.init : Machine V).Disciplined (.create 0) := trivial
  have hstart : ((Machine.init : Machine V).create 0).step (.startDetached 0)
      = some ((Execution.start b).machine, ()) := rfl
  have hrest : ((Machine.init : Machine V).create 0).Disciplined (.startDetached 0) := by
    intro o ho g hg c hc
    have ho : some (some 0) = some o := ho
    rw [Option.some.injEq] at ho
    subst ho
    have hg : some 0 = some g := hg
    rw [Option.some.injEq] at hg
    subst hg
    have hc : some (⟨.suspended .initial, 1, default, none⟩ : Coroutine V) = some c := hc
    rw [Option.some.injEq] at hc
    subst hc
    exact ⟨.initial, by simp, rfl⟩
  have hcode (g : Frame) : (Execution.start b).code g = if g = 0 then some (.body b) else none := by
    unfold Execution.start
    dsimp only
    rw [Function.update_apply]
  have hconf : Config (Execution.start b) 0 ⟨.running, 1, default, none⟩ [] [] [] := by
    constructor
    . constructor
      . exact ⟨_, .snoc (.snoc .nil ⟨hinit, hcreate⟩) ⟨hrest, hstart⟩⟩
      . intro g
        have htasks : (Execution.start b).machine.tasks g = if g = 0 then some (some 0) else none :=
          Function.update_apply _ _ _ _
        rw [htasks, hframes]
        split
        . next heq => rw [heq]; rfl
        . rfl
      . intro op g hop
        simp [Execution.start, Machine.startDetached, Machine.rest_resume, Machine.create,
          Machine.setFrame, Machine.setTask, Machine.init] at hop
    . constructor
      . intro g hg
        rw [hcode] at hg
        split at hg
        . next heq => simp [glance, hframes, heq]
        . simp at hg
      . simp [Execution.start]
      . intro h cont v hv
        simp [glance, hframes] at hv
      . simp [Execution.start]
      . exact List.nodup_nil
      . simp [Execution.start]
      . exact List.nodup_nil
      . simp [Execution.start]
      . simp [Execution.start]
      . simp [Execution.start]
      . intro f h hmem
        have hcalls : (Execution.start b).machine.calls = [(.startDetached, 0)] := rfl
        simp [hcalls] at hmem
    . constructor
      . rw [hframes, if_pos rfl]
      . exact .root
      . intro g hg
        rw [hframes] at hg
        left
        by_contra hne
        simp [hne] at hg
    . rfl
  have hturn : Turn (Execution.start b) 0 ⟨.running, 1, default, none⟩ [] [] []
      (b.direct.bind (remaining [])) := .body rfl rfl
  rw [remaining, Dialogue.bind_ret] at hturn
  exact .active hconf hturn

theorem run_represents {b : Body V Req Res} {trace : List (Input Res × Unit)}
    (hrun : Run (ofStep step) (start b) trace s)
    : ∃ p, b.direct.Performs s.history p ∧ Represents s p := by
  induction hrun with
  | nil => exact ⟨b.direct, .nil, .start b⟩
  | snoc _ hstep ih =>
    rcases ih with ⟨p, hperf, hrep⟩
    rcases hrep.step hstep with ⟨hhist, hrep⟩ | ⟨req, res, k, rfl, hhist, hrep⟩
    . rw [hhist]
      exact ⟨p, hperf, hrep⟩
    . rw [hhist]
      exact ⟨k res, hperf.snoc res, hrep⟩

structure Calls (s : Execution V Req Res) : Prop where
  yields : ∀ x ∈ s.yielded, x ∈ s.returned
  yields_once : (s.yielded.map Prod.fst).Nodup
  returns_once : (s.returned.map Prod.fst).Nodup
  waits : ∀ f h, (f, h) ∈ s.awaited → h ∉ s.returned.map Prod.fst → s.machine.At f (.child h)
  resumes : ∀ f h, (f, h) ∈ s.awaited →
    s.machine.calls.count (.finalSuspend h, f) = (s.returned.map Prod.fst).count h

theorem Represents.calls (hrep : Represents s p) : s.Calls := by
  have hbooks := hrep.books
  refine ⟨hbooks.yields, hbooks.yields_once, hbooks.returns_once, ?_, hbooks.resumes⟩
  intro f h hmem hnot
  rcases hbooks.pending f h hmem with hy | ⟨k, hk⟩
  . rw [List.mem_map] at hy
    rcases hy with ⟨x, hx, rfl⟩
    exact absurd (List.mem_map_of_mem (hbooks.yields x hx)) hnot
  . rcases hrep.waits hk with hat | hret
    . exact hat
    . exact absurd hret hnot

theorem Represents.requests (hrep : Represents s p)
    : s.requests = s.history.map Prod.fst
        ∨ ∃ req k, p = .ask req k ∧ s.requests = s.history.map Prod.fst ++ [req] := by
  cases hrep with
  | finished hfin => exact .inl hfin.requests
  | active hconf hturn =>
    have hreqs := hconf.requests
    cases hturn with
    | waiting _ _ _ _ => exact .inr ⟨_, _, rfl, hreqs⟩
    | _ =>
      rw [List.append_nil] at hreqs
      exact .inl hreqs

/--
Awaiting the tasks of a tree comes to the same as calling them.
-/
theorem awaiting_is_calling (b : Body V Req Res) (trace : List (Input Res × Unit))
    (s : Execution V Req Res) (hrun : Run (ofStep step) (start b) trace s)
    : s.machine.Safe ∧ s.Calls
        ∧ ∃ p, b.direct.Performs s.history p
          ∧ (s.requests = s.history.map Prod.fst
            ∨ ∃ req k, p = .ask req k ∧ s.requests = s.history.map Prod.fst ++ [req])
          ∧ (∀ value, s.Done value →
            p = .ret value ∧ ∀ f h, (f, h) ∈ s.awaited → h ∈ s.yielded.map Prod.fst)
          ∧ ∀ rest value, p.Performs rest (.ret value) →
            ∃ trace' s', Run (ofStep step) s trace' s' ∧ s'.history = s.history ++ rest
              ∧ s'.Done value := by
  rcases run_represents hrun with ⟨p, hperf, hrep⟩
  refine ⟨hrep.kept.sound.toSafe, hrep.calls, p, hperf, hrep.requests, ?_, ?_⟩
  . intro value hdone
    apply hrep.of_done hdone
  . intro rest value hrest
    rcases hrep.finish hrest with ⟨trace', s', hrun', hhist, hfin⟩
    exact ⟨trace', s', hrun', hhist, hfin.done⟩

theorem awaiting_is_calling_of_two_operations
    : let b : Body Nat Nat Nat := .call (.io 1 .coReturn) fun x => .io 2 fun y => .coReturn (x + y)
      let inputs : List (Input Nat) := [.run 0, .exit 1 40, .run 1, .run 1, .run 0, .run 0,
        .complete 1 2, .run 0, .run 0]
      ∃ s, Run (ofStep step) (start b) (inputs.zip (.replicate 9 ())) s
        ∧ s.history = [(1, 40), (2, 2)] ∧ s.Calls ∧ ∃ p, b.direct.Performs s.history p := by
  intro b inputs
  have hexec : ((exec step (start b) inputs).map fun r => (r.2, r.1.history))
      = some (.replicate 9 (), [(1, 40), (2, 2)]) := by decide
  rcases Option.map_eq_some_iff.mp hexec with ⟨⟨s, outs⟩, hexec, heq⟩
  simp only [Prod.mk.injEq] at heq
  rcases heq with ⟨rfl, hhist⟩
  have hrun := run_of_exec hexec
  rcases awaiting_is_calling b _ s hrun with ⟨_, hcalls, p, hperf, _⟩
  exact ⟨s, hrun, hhist, hcalls, p, hperf⟩

end Execution

end Task

end Sfap
