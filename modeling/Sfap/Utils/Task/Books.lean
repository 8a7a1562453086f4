import Sfap.Utils.Task.Calls

/-!
This module contains the books of a tree of coroutines: who awaits whom, what has been returned and what
has been yielded, and what each move does to them.
-/

namespace Sfap

namespace Task

namespace Execution

open Transition

variable {V Req Res : Type}

def glance (s : Execution V Req Res) (g : Frame) : Option (Option Frame × Option V) :=
  (s.machine.frames g).map fun c =>
    (c.continuation, if c.status = .suspended .final then some c.value else none)

structure Books (s : Execution V Req Res) : Prop where
  coded : ∀ g, s.code g ≠ none → ∃ cont, s.glance g = some (cont, none)
  linked : ∀ f h, (f, h) ∈ s.awaited →
    h < s.machine.nextFrame ∧ ∀ cont r, s.glance h = some (cont, r) → cont = some f
  finals : ∀ h cont v, s.glance h = some (cont, some v) → (h, v) ∈ s.returned
  final : ∀ h v, (h, v) ∈ s.returned →
    h < s.machine.nextFrame ∧ ∀ cont r, s.glance h = some (cont, r) → r ≠ none
  returns_once : (s.returned.map Prod.fst).Nodup
  yields : ∀ x ∈ s.yielded, x ∈ s.returned
  yields_once : (s.yielded.map Prod.fst).Nodup
  destroyed : ∀ h ∈ s.yielded.map Prod.fst, s.glance h = none
  pending : ∀ f h, (f, h) ∈ s.awaited →
    h ∈ s.yielded.map Prod.fst ∨ ∃ k, s.code f = some (.awaitTask h k)
  resumes : ∀ f h, (f, h) ∈ s.awaited →
    s.machine.calls.count (.finalSuspend h, f) = (s.returned.map Prod.fst).count h
  early : ∀ f h, (.finalSuspend h, f) ∈ s.machine.calls → h < s.machine.nextFrame

variable {s s' : Execution V Req Res} {f g h : Frame} {c : Coroutine V}

theorem glance_running (hf : s.machine.frames f = some c) (hs : c.status ≠ .suspended .final)
    : s.glance f = some (c.continuation, none) := by
  simp [glance, hf, hs]

theorem glance_eq_update {x : Option (Coroutine V)}
    (hframes : ∀ g, s'.machine.frames g = if g = f then x else s.machine.frames g) (g : Frame)
    : s'.glance g
        = if g = f then
            x.map fun c =>
              (c.continuation, if c.status = .suspended .final then some c.value else none)
          else
            s.glance g := by
  unfold glance
  rw [hframes]
  split <;> rfl

theorem nodup_keys_append {l : List (Frame × V)} {x : Frame × V}
    (hnodup : (l.map Prod.fst).Nodup) (hnew : x.1 ∉ l.map Prod.fst)
    : ((l ++ [x]).map Prod.fst).Nodup := by
  rw [List.map_append, List.map_singleton, ← List.concat_eq_append, List.nodup_concat]
  exact ⟨hnew, hnodup⟩

theorem Books.returned_lt (hbooks : s.Books) (hmem : h ∈ s.returned.map Prod.fst)
    : h < s.machine.nextFrame := by
  rw [List.mem_map] at hmem
  rcases hmem with ⟨⟨h', v⟩, hmem, rfl⟩
  exact (hbooks.final h' v hmem).1

theorem Books.yielded_lt (hbooks : s.Books) (hmem : h ∈ s.yielded.map Prod.fst)
    : h < s.machine.nextFrame := by
  rw [List.mem_map] at hmem
  rcases hmem with ⟨⟨h', v⟩, hmem, rfl⟩
  exact (hbooks.final h' v (hbooks.yields _ hmem)).1

theorem Books.count_nextFrame (hbooks : s.Books) (f : Frame)
    : s.machine.calls.count (.finalSuspend s.machine.nextFrame, f) = 0
        ∧ (s.returned.map Prod.fst).count s.machine.nextFrame = 0 := by
  constructor
  . rw [List.count_eq_zero]
    intro hmem
    exact absurd (hbooks.early f _ hmem) (Nat.lt_irrefl _)
  . rw [List.count_eq_zero]
    intro hmem
    exact absurd (hbooks.returned_lt hmem) (Nat.lt_irrefl _)

theorem Books.still_awaits (hbooks : s.Books) (hmem : (f, h) ∈ s.awaited) {code : Option (Code V Req Res)}
    (hcode : ∀ k, s.code f = some (.awaitTask h k) → code = s.code f)
    : h ∈ s.yielded.map Prod.fst ∨ ∃ k, code = some (.awaitTask h k) := by
  rcases hbooks.pending f h hmem with hy | ⟨k, hk⟩
  . exact .inl hy
  . exact .inr ⟨k, (hcode k hk).trans hk⟩

theorem count_append_of_other {calls r : List (Resumer × Frame)} (hr : ∀ x ∈ r, ∀ h, x.1 ≠ .finalSuspend h)
    (f h : Frame)
    : (calls ++ r).count (.finalSuspend h, f) = calls.count (.finalSuspend h, f) := by
  have hnone : r.count (.finalSuspend h, f) = 0 := by
    rw [List.count_eq_zero]
    intro hmem
    apply hr _ hmem h rfl
  rw [List.count_append, hnone, Nat.add_zero]

theorem Books.quiet (hbooks : s.Books) (hglance : ∀ g, s'.glance g = s.glance g)
    (hnext : s'.machine.nextFrame = s.machine.nextFrame)
    (hcalls : ∃ r, s'.machine.calls = s.machine.calls ++ r ∧ ∀ x ∈ r, ∀ h, x.1 ≠ .finalSuspend h)
    (hcode : ∀ g, s'.code g ≠ none → s.code g ≠ none)
    (htask : ∀ g h k, s.code g = some (.awaitTask h k) → s'.code g = s.code g)
    (hlists : s'.awaited = s.awaited ∧ s'.returned = s.returned ∧ s'.yielded = s.yielded)
    : s'.Books := by
  rcases hcalls with ⟨r, hcalls, hr⟩
  rcases hlists with ⟨hawaited, hreturned, hyielded⟩
  constructor <;> simp only [hglance, hnext, hawaited, hreturned, hyielded, hcalls]
  . intro g hg
    apply hbooks.coded g (hcode g hg)
  . exact hbooks.linked
  . exact hbooks.finals
  . exact hbooks.final
  . exact hbooks.returns_once
  . exact hbooks.yields
  . exact hbooks.yields_once
  . exact hbooks.destroyed
  . intro f h hfh
    apply hbooks.still_awaits hfh
    apply htask f h
  . intro f h hfh
    rw [count_append_of_other hr]
    apply hbooks.resumes f h hfh
  . intro f h hmem
    rw [List.mem_append] at hmem
    rcases hmem with hmem | hmem
    . apply hbooks.early f h hmem
    . exact absurd rfl (hr _ hmem h)

theorem Books.coReturn (hbooks : s.Books) {cont : Option Frame} {value : V}
    (hf : s.glance f = some (cont, none)) (hlt : f < s.machine.nextFrame)
    (hglance : ∀ g, s'.glance g = if g = f then some (cont, some value) else s.glance g)
    (hnext : s'.machine.nextFrame = s.machine.nextFrame)
    (hcalls : s'.machine.calls
      = s.machine.calls ++ (cont.map fun g => (Resumer.finalSuspend f, g)).toList)
    (hcode : ∀ g, s'.code g = if g = f then none else s.code g)
    (hawaits : ∀ h k, s.code f ≠ some (.awaitTask h k))
    (hlists : s'.awaited = s.awaited ∧ s'.returned = s.returned ++ [(f, value)]
      ∧ s'.yielded = s.yielded)
    : s'.Books := by
  rcases hlists with ⟨hawaited, hreturned, hyielded⟩
  have hnew : f ∉ s.returned.map Prod.fst := by
    intro hmem
    rw [List.mem_map] at hmem
    rcases hmem with ⟨⟨f', v⟩, hmem, rfl⟩
    exact (hbooks.final f' v hmem).2 _ _ hf rfl
  constructor <;> simp only [hglance, hnext, hawaited, hreturned, hyielded, hcalls, hcode]
  . intro g hg
    split at hg
    . simp at hg
    . next hne =>
      rw [if_neg hne]
      apply hbooks.coded g hg
  . intro f' h hfh
    refine ⟨(hbooks.linked f' h hfh).1, ?_⟩
    intro cont' r hr
    split at hr
    . next heq =>
      simp only [Option.some.injEq, Prod.mk.injEq] at hr
      rw [← hr.1]
      exact (hbooks.linked f' h hfh).2 cont none (heq ▸ hf)
    . apply (hbooks.linked f' h hfh).2 cont' r hr
  . intro h cont' v hv
    rw [List.mem_append, List.mem_singleton]
    split at hv
    . simp_all
    . exact .inl (hbooks.finals h cont' v hv)
  . intro h v hmem
    rw [List.mem_append, List.mem_singleton] at hmem
    rcases hmem with hmem | heq
    . refine ⟨(hbooks.final h v hmem).1, ?_⟩
      intro cont' r hr
      split at hr
      . simp_all
      . apply (hbooks.final h v hmem).2 cont' r hr
    . simp only [Prod.mk.injEq] at heq
      rw [heq.1]
      refine ⟨hlt, ?_⟩
      simp
  . apply nodup_keys_append hbooks.returns_once hnew
  . intro x hx
    rw [List.mem_append]
    exact .inl (hbooks.yields x hx)
  . exact hbooks.yields_once
  . intro h hh
    have := hbooks.destroyed h hh
    have hne : h ≠ f := by
      rintro rfl
      simp [hf] at this
    rw [if_neg hne, this]
  . intro f' h hfh
    apply hbooks.still_awaits hfh
    intro k hk
    rw [if_neg]
    rintro rfl
    apply hawaits h k hk
  . intro f' h hfh
    rw [List.count_append, List.map_append, List.count_append, hbooks.resumes f' h hfh]
    congr 1
    by_cases heq : h = f
    . have := (hbooks.linked f' h hfh).2 cont none (heq ▸ hf)
      rw [this, heq]
      simp
    . have hne : f ≠ h := Ne.symm heq
      cases cont <;> simp [hne]
  . intro f' h hmem
    rw [List.mem_append] at hmem
    rcases hmem with hmem | hmem
    . apply hbooks.early f' h hmem
    . cases cont with
      | none => simp at hmem
      | some g =>
        simp only [Option.map_some, Option.toList_some, List.mem_singleton, Prod.mk.injEq,
          Resumer.finalSuspend.injEq] at hmem
        rw [hmem.1]
        exact hlt

theorem Books.call (hbooks : s.Books) {cont : Option Frame} {kv : V → Body V Req Res}
    {child : Body V Req Res}
    (hf : s.glance f = some (cont, none)) (hlt : f < h) (hh : s.machine.nextFrame = h)
    (hfresh : s.glance h = none)
    (hglance : ∀ g, s'.glance g = if g = h then some (some f, none) else s.glance g)
    (hnext : s'.machine.nextFrame = h + 1)
    (hcalls : s'.machine.calls = s.machine.calls ++ [(.awaitSuspend, h)])
    (hcode : ∀ g, s'.code g = if g = f then some (.awaitTask h kv)
      else if g = h then some (.body child) else s.code g)
    (hawaits : ∀ h k, s.code f ≠ some (.awaitTask h k))
    (hlists : s'.awaited = s.awaited ++ [(f, h)] ∧ s'.returned = s.returned
      ∧ s'.yielded = s.yielded)
    : s'.Books := by
  rcases hlists with ⟨hawaited, hreturned, hyielded⟩
  constructor <;> simp only [hglance, hnext, hawaited, hreturned, hyielded, hcalls, hcode]
  . intro g hg
    by_cases hgf : g = f
    . rw [hgf, if_neg (Nat.ne_of_lt hlt)]
      exact ⟨cont, hf⟩
    . by_cases hgh : g = h
      . rw [if_pos hgh]
        exact ⟨some f, rfl⟩
      . rw [if_neg hgf, if_neg hgh] at hg
        rw [if_neg hgh]
        apply hbooks.coded g hg
  . intro f' h' hmem
    rw [List.mem_append, List.mem_singleton] at hmem
    rcases hmem with hmem | heq
    . have hlt' := (hbooks.linked f' h' hmem).1
      rw [hh] at hlt'
      refine ⟨Nat.lt_succ_of_lt hlt', ?_⟩
      rw [if_neg (Nat.ne_of_lt hlt')]
      apply (hbooks.linked f' h' hmem).2
    . rw [Prod.mk.injEq] at heq
      rw [heq.1, heq.2]
      refine ⟨Nat.lt_succ_self h, ?_⟩
      intro cont r hr
      simp at hr
      exact hr.1.symm
  . intro h' cont v hv
    split at hv
    . simp at hv
    . apply hbooks.finals h' cont v hv
  . intro h' v hmem
    have hlt' := (hbooks.final h' v hmem).1
    rw [hh] at hlt'
    refine ⟨Nat.lt_succ_of_lt hlt', ?_⟩
    rw [if_neg (Nat.ne_of_lt hlt')]
    apply (hbooks.final h' v hmem).2
  . exact hbooks.returns_once
  . exact hbooks.yields
  . exact hbooks.yields_once
  . intro h' hmem
    have hlt' := hbooks.yielded_lt hmem
    rw [hh] at hlt'
    rw [if_neg (Nat.ne_of_lt hlt')]
    apply hbooks.destroyed h' hmem
  . intro f' h' hmem
    rw [List.mem_append, List.mem_singleton] at hmem
    rcases hmem with hmem | heq
    . apply hbooks.still_awaits hmem
      intro k hk
      have hne : f' ≠ f := by
        rintro rfl
        apply hawaits h' k hk
      have hne' : f' ≠ h := by
        rintro rfl
        rcases hbooks.coded _ (Option.ne_none_iff_exists'.mpr ⟨_, hk⟩) with ⟨cont, hcont⟩
        simp [hfresh] at hcont
      rw [if_neg hne, if_neg hne']
    . right
      rw [Prod.mk.injEq] at heq
      rw [heq.1, heq.2, if_pos rfl]
      exact ⟨kv, rfl⟩
  . intro f' h' hmem
    rw [count_append_of_other (by simp)]
    rw [List.mem_append, List.mem_singleton] at hmem
    rcases hmem with hmem | heq
    . apply hbooks.resumes f' h' hmem
    . cases heq
      rw [← hh, (hbooks.count_nextFrame f).1, (hbooks.count_nextFrame f).2]
  . intro f' h' hmem
    rw [List.mem_append, List.mem_singleton] at hmem
    rcases hmem with hmem | heq
    . have := hbooks.early f' h' hmem
      rw [hh] at this
      apply Nat.lt_succ_of_lt this
    . simp at heq

theorem Books.yield (hbooks : s.Books) {cont cont' : Option Frame} {kv : V → Body V Req Res}
    {b : Body V Req Res} {value : V}
    (hf : s.glance f = some (cont, none)) (hh : s.glance h = some (cont', some value))
    (hglance : ∀ g, s'.glance g = if g = h then none else s.glance g)
    (hnext : s'.machine.nextFrame = s.machine.nextFrame)
    (hcalls : s'.machine.calls = s.machine.calls)
    (hcode : ∀ g, s'.code g = if g = f then some (.body b) else s.code g)
    (hawaits : s.code f = some (.awaitTask h kv))
    (hlists : s'.awaited = s.awaited ∧ s'.returned = s.returned
      ∧ s'.yielded = s.yielded ++ [(h, value)])
    : s'.Books := by
  rcases hlists with ⟨hawaited, hreturned, hyielded⟩
  have hnew : h ∉ s.yielded.map Prod.fst := by
    intro hmem
    have := hbooks.destroyed h hmem
    simp [hh] at this
  have hglance' (g : Frame) (x : Option Frame × Option V) (hx : s'.glance g = some x)
      : g ≠ h ∧ s.glance g = some x := by
    rw [hglance] at hx
    split at hx
    . simp at hx
    . next hne => exact ⟨hne, hx⟩
  constructor
  . intro g hg
    rw [hcode] at hg
    rw [hglance]
    by_cases hgf : g = f
    . have hne : f ≠ h := by
        rintro rfl
        simp [hf] at hh
      rw [hgf, if_neg hne]
      exact ⟨cont, hf⟩
    . rw [if_neg hgf] at hg
      rcases hbooks.coded g hg with ⟨cont, hcont⟩
      have hne : g ≠ h := by
        rintro rfl
        simp [hcont] at hh
      rw [if_neg hne]
      exact ⟨cont, hcont⟩
  . rw [hawaited, hnext]
    intro f' h' hmem
    refine ⟨(hbooks.linked f' h' hmem).1, ?_⟩
    intro cont r hr
    apply (hbooks.linked f' h' hmem).2 cont r (hglance' _ _ hr).2
  . rw [hreturned]
    intro h' cont v hv
    apply hbooks.finals h' cont v (hglance' _ _ hv).2
  . rw [hreturned, hnext]
    intro h' v hmem
    refine ⟨(hbooks.final h' v hmem).1, ?_⟩
    intro cont r hr
    apply (hbooks.final h' v hmem).2 cont r (hglance' _ _ hr).2
  . rw [hreturned]
    exact hbooks.returns_once
  . rw [hreturned, hyielded]
    intro x hx
    rw [List.mem_append, List.mem_singleton] at hx
    rcases hx with hx | rfl
    . apply hbooks.yields x hx
    . apply hbooks.finals h cont' value hh
  . rw [hyielded]
    apply nodup_keys_append hbooks.yields_once hnew
  . rw [hyielded]
    intro h' hmem
    rw [hglance]
    split
    . rfl
    . next hne =>
      apply hbooks.destroyed
      simpa [hne] using hmem
  . rw [hawaited, hyielded]
    intro f' h' hmem
    rw [List.map_append, List.mem_append]
    rcases hbooks.pending f' h' hmem with hy | ⟨k, hk⟩
    . exact .inl (.inl hy)
    . by_cases heq : f' = f
      . rw [heq, hawaits] at hk
        simp only [Option.some.injEq, Code.awaitTask.injEq] at hk
        simp [hk.1]
      . right
        rw [hcode, if_neg heq]
        exact ⟨k, hk⟩
  . rw [hawaited, hreturned, hcalls]
    exact hbooks.resumes
  . rw [hcalls, hnext]
    exact hbooks.early

theorem not_awaitTask {b : Body V Req Res} (hcode : s.code f = some (.body b)) (h : Frame)
    (k : V → Body V Req Res)
    : s.code f ≠ some (.awaitTask h k) := by
  simp [hcode]

theorem ne_final (hs : c.status = .running) : c.status ≠ .suspended .final := by
  simp [hs]

theorem Books.advance {c' : Coroutine V} {code : Code V Req Res} (hbooks : s.Books)
    (hf : s.machine.frames f = some c) (hs : c.status ≠ .suspended .final)
    (hframes : ∀ g, s'.machine.frames g = if g = f then some c' else s.machine.frames g)
    (hs' : c'.status ≠ .suspended .final) (hcont : c'.continuation = c.continuation)
    (hnext : s'.machine.nextFrame = s.machine.nextFrame)
    (hcalls : ∃ r, s'.machine.calls = s.machine.calls ++ r ∧ ∀ x ∈ r, ∀ h, x.1 ≠ .finalSuspend h)
    (hcode : s'.code = Function.update s.code f (some code)) (hold : s.code f ≠ none)
    (hawaits : ∀ h k, s.code f ≠ some (.awaitTask h k))
    (hlists : s'.awaited = s.awaited ∧ s'.returned = s.returned ∧ s'.yielded = s.yielded)
    : s'.Books := by
  apply hbooks.quiet _ hnext hcalls _ _ hlists
  . intro g
    rw [glance_eq_update hframes]
    split
    . next heq => simp [heq, glance_running hf hs, hs', hcont]
    . rfl
  . intro g
    rw [hcode, Function.update_apply]
    split
    . next heq => simpa [heq] using hold
    . exact id
  . intro g h k hg
    rw [hcode, Function.update_of_ne]
    rintro rfl
    apply hawaits h k hg

section Moves

variable [Inhabited V] {ks : List (Await V Req Res)} {extra : List Frame} {reqs : List Req}
  {req : Req} {res : Res} {k : Res → Body V Req Res} {value : V} {p : Dialogue Req Res V}

structure Config (s : Execution V Req Res) (f : Frame) (c : Coroutine V)
    (ks : List (Await V Req Res)) (extra : List Frame) (reqs : List Req) : Prop where
  kept : Kept s
  books : Books s
  stack : Stack s f c ks extra
  requests : s.requests = s.history.map Prod.fst ++ reqs

theorem Config.request (hconf : Config s f c ks [] []) (hs : c.status = .running)
    (hcode : s.code f = some (.body (.io req k)))
    : Config (s.request f c req k) f
        { c with status := .suspended (.io s.nextOp), suspensions := c.suspensions + 1 } ks []
        [req] := by
  have hf := hconf.stack.frame
  have hframes (g : Frame) : (s.request f c req k).machine.frames g = _ :=
    Machine.frames_suspend g
  constructor
  . apply hconf.kept.request hf hs
  . apply hconf.books.advance hf (ne_final hs) hframes
    . simp
    . rfl
    . rfl
    . exact ⟨[], (List.append_nil _).symm, by simp⟩
    . rfl
    . simp [hcode]
    . apply not_awaitTask hcode
    . exact ⟨rfl, rfl, rfl⟩
  . apply hconf.stack.request
  . have := hconf.requests
    simp [Execution.request, Execution.setCode, this]

theorem Config.exit (hconf : Config s f c ks [] []) (hs : c.status = .running)
    (hcode : s.code f = some (.body (.io req k)))
    : Config (s.exit f c req k res) f
        { c with status := .running, suspensions := c.suspensions + 1 } ks [] [] := by
  have hf := hconf.stack.frame
  have hframes (g : Frame) : (s.exit f c req k res).machine.frames g = _ :=
    Machine.frames_exitIo g
  constructor
  . apply hconf.kept.exit hf hs
  . apply hconf.books.advance hf (ne_final hs) hframes
    . simp
    . rfl
    . exact Machine.rest_resume.2.2
    . exact ⟨[(.exit s.nextOp, f)], Machine.calls_exitIo, by simp⟩
    . rfl
    . simp [hcode]
    . apply not_awaitTask hcode
    . exact ⟨rfl, rfl, rfl⟩
  . apply hconf.stack.exit
  . have := hconf.requests
    simp [Execution.exit, Execution.setCode, this]

theorem Config.complete {op : Operation} (hconf : Config s f c ks [] [req])
    (hs : c.status = .suspended (.io op)) (hop : s.machine.operations op = some f)
    (hcode : s.code f = some (.awaitIo op k)) (res : Res)
    : Config (s.complete op f req res) f { c with status := .running } ks [] [] := by
  have hf := hconf.stack.frame
  have hframes (g : Frame) : (s.complete op f req res).machine.frames g = _ :=
    Machine.frames_handleCqe hf hs g
  constructor
  . apply hconf.kept.complete hop
  . apply hconf.books.advance hf (by simp [hs]) hframes
    . simp
    . rfl
    . exact Machine.rest_resume.2.2
    . exact ⟨[(.handleCqe op, f)], Machine.calls_handleCqe hf hs, by simp⟩
    . exact (Function.update_eq_self_iff.mpr hcode.symm).symm
    . simp [hcode]
    . simp [hcode]
    . exact ⟨rfl, rfl, rfl⟩
  . apply hconf.stack.complete hs
  . have := hconf.requests
    simp [Execution.complete, this]

theorem Config.answer {op : Operation} (hconf : Config s f c ks [] []) (hs : c.status = .running)
    (hcode : s.code f = some (.awaitIo op k)) (res : Res)
    : Config (s.setCode f (some (.body (k res)))) f c ks [] [] := by
  have hf := hconf.stack.frame
  have hframes (g : Frame) : (s.setCode f (some (.body (k res)))).machine.frames g
      = if g = f then some c else s.machine.frames g := by
    split
    . next heq => rw [heq, ← hf]; rfl
    . rfl
  constructor
  . apply hconf.kept.setCode
  . apply hconf.books.advance hf (ne_final hs) hframes (ne_final hs)
    . rfl
    . rfl
    . exact ⟨[], (List.append_nil _).symm, by simp⟩
    . rfl
    . simp [hcode]
    . simp [hcode]
    . exact ⟨rfl, rfl, rfl⟩
  . apply hconf.stack.setCode
  . exact hconf.requests

theorem Config.books_coReturn (hconf : Config s f c ks [] []) (hs : c.status = .running)
    {b : Body V Req Res} (hcode : s.code f = some (.body b))
    : (s.coReturn f c value).Books := by
  have hf := hconf.stack.frame
  have hlt := hconf.kept.lt hf
  have hglance := glance_running hf (ne_final hs)
  have hcodes (g : Frame) : (s.coReturn f c value).code g = _ := Function.update_apply _ _ _ _
  cases hc : c.continuation with
  | none =>
    rw [hc] at hglance
    have hcoReturn : s.machine.coReturn f c value = s.machine.suspend f { c with value := value } .final := by
      unfold Machine.coReturn
      rw [hc]
    apply hconf.books.coReturn hglance hlt _ _ _ hcodes (not_awaitTask hcode) ⟨rfl, rfl, rfl⟩
    . intro i
      have hframes (g : Frame) : (s.coReturn f c value).machine.frames g = _ :=
        Machine.frames_coReturn_root hc g
      rw [glance_eq_update hframes]
      simp
    . show (s.machine.coReturn f c value).nextFrame = _
      rw [hcoReturn]
      rfl
    . show (s.machine.coReturn f c value).calls = _
      rw [hcoReturn]
      exact (List.append_nil _).symm
  | some g =>
    rw [hc] at hglance
    rcases hconf.kept.caller hf hs hc with ⟨cg, hg, hsg, hne⟩
    apply hconf.books.coReturn hglance hlt _ _ _ hcodes (not_awaitTask hcode) ⟨rfl, rfl, rfl⟩
    . intro i
      have hframes (i : Frame) : (s.coReturn f c value).machine.frames i = _ :=
        Machine.frames_coReturn hc hg hsg hne i
      unfold glance
      rw [hframes]
      by_cases hig : i = g
      . simp [hig, hne, hg, hsg]
      . by_cases hif : i = f
        . simp [hif, Ne.symm hne]
        . simp [hig, hif]
    . show (s.machine.coReturn f c value).nextFrame = _
      unfold Machine.coReturn
      rw [hc]
      exact Machine.rest_resume.2.2
    . apply Machine.calls_coReturn hc hg hsg hne

theorem Config.call {child : Body V Req Res} {kv : V → Body V Req Res}
    (hconf : Config s f c ks [] []) (hs : c.status = .running)
    (hcode : s.code f = some (.body (.call child kv)))
    : Config (s.call f c child kv) s.machine.nextFrame ⟨.running, 1, default, some f⟩ ((f, kv) :: ks) [] [] := by
  have hf := hconf.stack.frame
  have hlt := hconf.kept.lt hf
  have hne := Nat.ne_of_lt hlt
  have hawait := Machine.coAwait_create (c := c) (v := s.machine.nextFrame) hne
  have hnone : s.machine.frames s.machine.nextFrame = none :=
    hconf.kept.sound.fresh _ (Nat.le_refl _)
  constructor
  . apply hconf.kept.call hf hs
  . apply hconf.books.call (glance_running hf (ne_final hs)) hlt rfl
    . unfold glance
      rw [hnone]
      rfl
    . intro i
      unfold glance
      rw [show (s.call f c child kv).machine.frames i = _ from hawait.1 i]
      by_cases hih : i = s.machine.nextFrame
      . simp [hih]
      . by_cases hif : i = f
        . simp [hif, hne, hf, hs]
        . simp [hih, hif]
    . show ((s.machine.create _).coAwait f c _).nextFrame = _
      have hready : (s.machine.create s.machine.nextFrame).awaitReady (some s.machine.nextFrame)
          = false := by
        unfold Machine.awaitReady Machine.done
        simp [Machine.frames_create]
      unfold Machine.coAwait Machine.awaitSuspend
      rw [hready]
      simp only [Bool.false_eq_true, if_false]
      rw [Machine.rest_resume.2.2]
      unfold Machine.setContinuation
      split <;> rfl
    . exact hawait.2
    . intro i
      unfold Execution.call Execution.setCode
      dsimp only
      rw [Function.update_apply, Function.update_apply]
    . apply not_awaitTask hcode
    . exact ⟨rfl, rfl, rfl⟩
  . apply hconf.stack.call hlt
  . exact hconf.requests

theorem Config.yield {ch : Coroutine V} {kv : V → Body V Req Res}
    (hconf : Config s f c ks [h] []) (hs : c.status = .running)
    (hcode : s.code f = some (.awaitTask h kv)) (hlt : f < h) (hh : s.machine.frames h = some ch)
    (hsh : ch.status = .suspended .final)
    : Config (s.yield f h ch kv) f c ks [] [] := by
  have hf := hconf.stack.frame
  constructor
  . apply hconf.kept.yield hh hsh
  . have hglance : s.glance h = some (ch.continuation, some ch.value) := by
      simp [glance, hh, hsh]
    apply hconf.books.yield (glance_running hf (ne_final hs)) hglance
    . intro i
      have hframes (i : Frame) : (s.yield f h ch kv).machine.frames i = _ :=
        Function.update_apply _ _ _ _
      rw [glance_eq_update hframes]
      rfl
    . rfl
    . rfl
    . intro i
      apply Function.update_apply
    . exact hcode
    . exact ⟨rfl, rfl, rfl⟩
  . apply hconf.stack.yield hlt
  . exact hconf.requests

end Moves

end Execution

end Task

end Sfap
