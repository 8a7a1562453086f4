import Mathlib.Logic.Function.Basic
import Sfap.Lib.Transition

/-!
This module contains histories of concurrent calls and replies, what it means that such a history is
linearizable, and the rule that a mapping of an implementation to the atomic object makes all its histories
linearizable.
-/

namespace Linearizability

open Transition (Run)

variable {T Op Ret α σ ι : Type}

inductive Event (T Op Ret : Type) where
  | call (t : T) (op : Op)
  | reply (t : T) (ret : Ret)
  deriving DecidableEq, Repr

def Event.thread : Event T Op Ret → T
  | .call t _ => t
  | .reply t _ => t

structure Entry (T Op Ret : Type) where
  call : Nat
  thread : T
  op : Op
  ret : Ret

def Entry.effect (e : Entry T Op Ret) : Op × Ret := (e.op, e.ret)

def Waits (es : List (Event T Op Ret)) (t : T) (i : Nat) : Prop :=
  ∀ k e, i < k → es[k]? = some e → e.thread ≠ t

def Answers (es : List (Event T Op Ret)) (i j : Nat) : Prop :=
  i < j ∧ ∃ t op ret, es[i]? = some (.call t op) ∧ es[j]? = some (.reply t ret) ∧ Waits (es.take j) t i

/--
The sequential object `Spec` can take the calls of `log` one after the other with the results that their
threads get, and a call that is answered before another one begins comes before it.
-/
structure Linearization (Spec : α → Op → Ret → α → Prop) (start : α) (es : List (Event T Op Ret))
    (log : List (Entry T Op Ret)) : Prop where
  legal : ∃ a, Run Spec start (log.map Entry.effect) a
  calls : ∀ e ∈ log, es[e.call]? = some (.call e.thread e.op)
  nodup : (log.map Entry.call).Nodup
  replies : ∀ (j : Nat) t ret, es[j]? = some (.reply t ret) → ∃ e ∈ log, Answers es e.call j ∧ e.ret = ret
  order : ∀ (m n : Nat) e e' j, log[m]? = some e → log[n]? = some e' → Answers es e.call j → j < e'.call → m < n

def Linearizable (Spec : α → Op → Ret → α → Prop) (start : α) (es : List (Event T Op Ret)) : Prop :=
  ∃ log, Linearization Spec start es log

inductive Status (Op Ret : Type) where
  | idle
  | called (op : Op)
  | done (ret : Ret)
  deriving DecidableEq, Repr

inductive Moves [DecidableEq T] (Spec : α → Op → Ret → α → Prop) (a : α) (st : T → Status Op Ret)
    : List (Event T Op Ret) → α → (T → Status Op Ret) → Prop where
  | nil : Moves Spec a st [] a st
  | call {es : List (Event T Op Ret)} {a' : α} {st' : T → Status Op Ret} {t : T} (op : Op) :
      Moves Spec a st es a' st' → st' t = .idle →
        Moves Spec a st (es ++ [.call t op]) a' (Function.update st' t (.called op))
  | effect {es : List (Event T Op Ret)} {a' a'' : α} {st' : T → Status Op Ret} {t : T} {op : Op} {ret : Ret} :
      Moves Spec a st es a' st' → st' t = .called op → Spec a' op ret a'' →
        Moves Spec a st es a'' (Function.update st' t (.done ret))
  | reply {es : List (Event T Op Ret)} {a' : α} {st' : T → Status Op Ret} {t : T} {ret : Ret} :
      Moves Spec a st es a' st' → st' t = .done ret →
        Moves Spec a st (es ++ [.reply t ret]) a' (Function.update st' t .idle)

namespace Moves

variable [DecidableEq T] {Spec : α → Op → Ret → α → Prop} {a a' : α} {st : T → Status Op Ret} {t : T} {op : Op}
  {ret : Ret}

theorem stay {status : Status Op Ret} (h : st t = status) : Moves Spec a st [] a (Function.update st t status) := by
  rw [← h, Function.update_eq_self]
  exact .nil

theorem start (h : st t = .idle) : Moves Spec a st [.call t op] a (Function.update st t (.called op)) :=
  .call op .nil h

theorem take (h : st t = .called op) (hspec : Spec a op ret a')
    : Moves Spec a st [] a' (Function.update st t (.done ret)) :=
  .effect .nil h hspec

theorem answer (h : st t = .done ret) : Moves Spec a st [.reply t ret] a (Function.update st t .idle) :=
  .reply .nil h

theorem finish (h : st t = .called op) (hspec : Spec a op ret a')
    : Moves Spec a st [.reply t ret] a' (Function.update st t .idle) := by
  have hreply : Moves Spec a st [.reply t ret] a' _ := .reply (take h hspec) (Function.update_self t _ st)
  rw [Function.update_idem] at hreply
  exact hreply

theorem once (h : st t = .idle) (hspec : Spec a op ret a')
    : Moves Spec a st [.call t op, .reply t ret] a' (Function.update st t .idle) := by
  have hstart : Moves Spec a st [.call t op] a _ := start h
  have htake : Moves Spec a st [.call t op] a' _ := .effect hstart (Function.update_self t _ st) hspec
  have hreply : Moves Spec a st [.call t op, .reply t ret] a' _ := .reply htake (Function.update_self t _ _)
  rw [Function.update_idem, Function.update_idem] at hreply
  exact hreply

end Moves

def Status.Tracks (es : List (Event T Op Ret)) (log : List (Entry T Op Ret)) (t : T) : Status Op Ret → Prop
  | .idle => True
  | .called op => ∃ i, es[i]? = some (.call t op) ∧ Waits es t i ∧ ∀ e ∈ log, e.call ≠ i
  | .done ret => ∃ e ∈ log, e.thread = t ∧ e.ret = ret ∧ Waits es t e.call

structure Tracked (Spec : α → Op → Ret → α → Prop) (start : α) (es : List (Event T Op Ret))
    (log : List (Entry T Op Ret)) (a : α) (st : T → Status Op Ret) : Prop where
  linearization : Linearization Spec start es log
  run : Run Spec start (log.map Entry.effect) a
  status : ∀ t, (st t).Tracks es log t

section History

variable {es : List (Event T Op Ret)} {e : Event T Op Ret} {t : T} {i j : Nat}

theorem lt_length (h : es[i]? = some e) : i < es.length :=
  (List.getElem?_eq_some_iff.mp h).1

theorem getElem?_snoc (h : es[i]? = some e) (e' : Event T Op Ret) : (es ++ [e'])[i]? = some e := by
  rw [List.getElem?_append_left (lt_length h)]
  exact h

theorem Waits.snoc (h : Waits es t i) {e : Event T Op Ret} (hne : e.thread ≠ t) : Waits (es ++ [e]) t i := by
  intro k e' hik hk
  rcases Nat.lt_or_ge k es.length with hlt | hge
  . rw [List.getElem?_append_left hlt] at hk
    apply h k e' hik hk
  . have hlen := lt_length hk
    rw [List.length_append, List.length_singleton] at hlen
    have heq : k = es.length := by omega
    rw [heq, List.getElem?_concat_length, Option.some.injEq] at hk
    rw [← hk]
    exact hne

theorem Waits.last (es : List (Event T Op Ret)) (t : T) (op : Op) : Waits (es ++ [.call t op]) t es.length := by
  intro k e hk hget
  have hlen := lt_length hget
  rw [List.length_append, List.length_singleton] at hlen
  omega

theorem Answers.not_waits (h : Answers es i j) {op : Op} (hi : es[i]? = some (.call t op)) : ¬ Waits es t i := by
  rcases h with ⟨hij, t', op', ret, hi', hj, _⟩
  rw [hi, Option.some.injEq, Event.call.injEq] at hi'
  intro hwaits
  apply hwaits j _ hij hj
  exact hi'.1.symm

theorem Answers.of_snoc (h : Answers (es ++ [e]) i j) (hj : j < es.length) : Answers es i j := by
  rcases h with ⟨hij, t, op, ret, hi, hj', hwaits⟩
  rw [List.getElem?_append_left (by omega)] at hi
  rw [List.getElem?_append_left hj] at hj'
  rw [List.take_append_of_le_length (Nat.le_of_lt hj)] at hwaits
  exact ⟨hij, t, op, ret, hi, hj', hwaits⟩

theorem Answers.snoc (h : Answers es i j) (e : Event T Op Ret) : Answers (es ++ [e]) i j := by
  rcases h with ⟨hij, t, op, ret, hi, hj, hwaits⟩
  refine ⟨hij, t, op, ret, getElem?_snoc hi e, getElem?_snoc hj e, ?_⟩
  rw [List.take_append_of_le_length (Nat.le_of_lt (lt_length hj))]
  exact hwaits

end History

section Tracked

variable {Spec : α → Op → Ret → α → Prop} {start a a' : α} {es : List (Event T Op Ret)}
  {log : List (Entry T Op Ret)} {st : T → Status Op Ret} {t : T}

theorem Linearization.call_lt (h : Linearization Spec start es log) {e : Entry T Op Ret} (he : e ∈ log)
    : e.call < es.length := by
  apply lt_length (h.calls e he)

theorem Linearization.order_snoc (h : Linearization Spec start es log) (new : Event T Op Ret)
    : ∀ (m n : Nat) e e' j, log[m]? = some e → log[n]? = some e' → Answers (es ++ [new]) e.call j → j < e'.call →
        m < n := by
  intro m n e e' j hm hn hans hlt
  have hlen := h.call_lt (List.mem_of_getElem? hn)
  apply h.order m n e e' j hm hn (hans.of_snoc (by omega)) hlt

theorem Status.Tracks.snoc {status : Status Op Ret} (h : status.Tracks es log t) {e : Event T Op Ret}
    (hne : e.thread ≠ t)
    : status.Tracks (es ++ [e]) log t := by
  cases status with
  | idle => trivial
  | called op =>
    rcases h with ⟨i, hi, hwaits, hlog⟩
    exact ⟨i, getElem?_snoc hi e, hwaits.snoc hne, hlog⟩
  | done ret =>
    rcases h with ⟨entry, hmem, ht, hret, hwaits⟩
    exact ⟨entry, hmem, ht, hret, hwaits.snoc hne⟩

theorem Tracked.init (Spec : α → Op → Ret → α → Prop) (start : α) (hidle : ∀ t, st t = .idle)
    : Tracked Spec start [] [] start st := by
  refine ⟨⟨⟨start, .nil⟩, ?_, ?_, ?_, ?_⟩, .nil, ?_⟩
  . simp
  . simp
  . simp
  . simp
  . intro t
    rw [hidle]
    trivial

variable [DecidableEq T]

theorem Tracked.call (h : Tracked Spec start es log a st) (op : Op)
    : Tracked Spec start (es ++ [.call t op]) log a (Function.update st t (.called op)) := by
  have hlin := h.linearization
  refine ⟨⟨hlin.legal, ?_, hlin.nodup, ?_, hlin.order_snoc _⟩, h.run, ?_⟩
  . intro e he
    apply getElem?_snoc (hlin.calls e he)
  . intro j u ret hj
    have hlen := lt_length hj
    rw [List.length_append, List.length_singleton] at hlen
    rcases Nat.lt_or_eq_of_le (Nat.le_of_lt_succ hlen) with hlt | rfl
    . rw [List.getElem?_append_left hlt] at hj
      rcases hlin.replies j u ret hj with ⟨e, he, hans, hret⟩
      exact ⟨e, he, hans.snoc _, hret⟩
    . simp at hj
  . intro u
    by_cases hu : u = t
    . rw [hu, Function.update_self]
      refine ⟨es.length, List.getElem?_concat_length, .last es t op, ?_⟩
      intro e he
      apply Nat.ne_of_lt (hlin.call_lt he)
    . rw [Function.update_of_ne hu]
      apply (h.status u).snoc
      exact fun heq => hu heq.symm

theorem Tracked.effect (h : Tracked Spec start es log a st) {op : Op} {ret : Ret} (hst : st t = .called op)
    (hspec : Spec a op ret a')
    : ∃ log', Tracked Spec start es log' a' (Function.update st t (.done ret)) := by
  have hlin := h.linearization
  have hcalled := h.status t
  rw [hst] at hcalled
  rcases hcalled with ⟨i, hi, hwaits, hnew⟩
  have hrun : Run Spec start ((log ++ [(⟨i, t, op, ret⟩ : Entry T Op Ret)]).map Entry.effect) a' := by
    rw [List.map_append]
    exact .snoc h.run hspec
  refine ⟨log ++ [⟨i, t, op, ret⟩], ⟨⟨a', hrun⟩, ?_, ?_, ?_, ?_⟩, hrun, ?_⟩
  . intro e he
    rw [List.mem_append, List.mem_singleton] at he
    rcases he with he | rfl
    . apply hlin.calls e he
    . exact hi
  . rw [List.map_append, List.nodup_append]
    refine ⟨hlin.nodup, by simp, ?_⟩
    rintro _ hmem _ hmem'
    rcases List.mem_map.mp hmem with ⟨e, he, rfl⟩
    rw [List.map_singleton, List.mem_singleton] at hmem'
    rw [hmem']
    apply hnew e he
  . intro j u r hj
    rcases hlin.replies j u r hj with ⟨e, he, hans, hret⟩
    exact ⟨e, List.mem_append_left _ he, hans, hret⟩
  . intro m n e e' j hm hn hans hlt
    have hn' := (List.getElem?_eq_some_iff.mp hn).1
    rcases Nat.lt_or_ge m log.length with hm' | hm'
    . rcases Nat.lt_or_ge n log.length with hnlt | hnge
      . rw [List.getElem?_append_left hm'] at hm
        rw [List.getElem?_append_left hnlt] at hn
        apply hlin.order m n e e' j hm hn hans hlt
      . omega
    . -- the call that takes effect now has not been answered
      have hmlen := (List.getElem?_eq_some_iff.mp hm).1
      rw [List.length_append, List.length_singleton] at hmlen
      have heq : m = log.length := by omega
      rw [heq, List.getElem?_concat_length, Option.some.injEq] at hm
      subst hm
      exact absurd hwaits (hans.not_waits hi)
  . intro u
    by_cases hu : u = t
    . rw [hu, Function.update_self]
      exact ⟨⟨i, t, op, ret⟩, by simp, rfl, rfl, hwaits⟩
    . rw [Function.update_of_ne hu]
      have hstatus := h.status u
      cases hstu : st u with
      | idle => trivial
      | called op' =>
        rw [hstu] at hstatus
        rcases hstatus with ⟨k, hk, hwaits', hlog⟩
        refine ⟨k, hk, hwaits', ?_⟩
        intro e he
        rw [List.mem_append, List.mem_singleton] at he
        rcases he with he | rfl
        . apply hlog e he
        . rintro rfl
          rw [hi, Option.some.injEq, Event.call.injEq] at hk
          exact hu hk.1.symm
      | done ret' =>
        rw [hstu] at hstatus
        rcases hstatus with ⟨e, he, hrest⟩
        exact ⟨e, List.mem_append_left _ he, hrest⟩

theorem Tracked.reply (h : Tracked Spec start es log a st) {ret : Ret} (hst : st t = .done ret)
    : Tracked Spec start (es ++ [.reply t ret]) log a (Function.update st t .idle) := by
  have hlin := h.linearization
  have hdone := h.status t
  rw [hst] at hdone
  rcases hdone with ⟨entry, hmem, rfl, rfl, hwaits⟩
  refine ⟨⟨hlin.legal, ?_, hlin.nodup, ?_, hlin.order_snoc _⟩, h.run, ?_⟩
  . intro e he
    apply getElem?_snoc (hlin.calls e he)
  . intro j u r hj
    have hlen := lt_length hj
    rw [List.length_append, List.length_singleton] at hlen
    rcases Nat.lt_or_eq_of_le (Nat.le_of_lt_succ hlen) with hlt | rfl
    . rw [List.getElem?_append_left hlt] at hj
      rcases hlin.replies j u r hj with ⟨e, he, hans, hret⟩
      exact ⟨e, he, hans.snoc _, hret⟩
    . rw [List.getElem?_concat_length, Option.some.injEq, Event.reply.injEq] at hj
      refine ⟨entry, hmem, ⟨hlin.call_lt hmem, entry.thread, entry.op, entry.ret, ?_, ?_, ?_⟩, hj.2⟩
      . apply getElem?_snoc (hlin.calls entry hmem)
      . rw [List.getElem?_concat_length]
      . rw [List.take_left]
        exact hwaits
  . intro u
    by_cases hu : u = entry.thread
    . rw [hu, Function.update_self]
      trivial
    . rw [Function.update_of_ne hu]
      apply (h.status u).snoc
      exact fun heq => hu heq.symm

theorem Tracked.moves (h : Tracked Spec start es log a st) {es' : List (Event T Op Ret)}
    {st' : T → Status Op Ret} (hmoves : Moves Spec a st es' a' st')
    : ∃ log', Tracked Spec start (es ++ es') log' a' st' := by
  induction hmoves with
  | nil =>
    rw [List.append_nil]
    exact ⟨log, h⟩
  | call op _ _ ih =>
    rcases ih with ⟨log', ih⟩
    rw [← List.append_assoc]
    exact ⟨log', ih.call op⟩
  | effect _ hst hspec ih =>
    rcases ih with ⟨log', ih⟩
    exact ih.effect hst hspec
  | reply _ hst ih =>
    rcases ih with ⟨log', ih⟩
    rw [← List.append_assoc]
    exact ⟨log', ih.reply hst⟩

/--
`abs` and `status` map every step of an implementation to what the atomic object can do, so its histories are
linearizable.
-/
theorem linearizable_of_mapping {Step : σ → ι → List (Event T Op Ret) → σ → Prop} {Inv : σ → Prop}
    (abs : σ → α) (status : σ → T → Status Op Ret) {s s' : σ} {trace : List (ι × List (Event T Op Ret))}
    (hinit : Inv s) (hidle : ∀ t, status s t = .idle)
    (hstep : ∀ s₁ i es s₂, Inv s₁ → Step s₁ i es s₂ →
      Inv s₂ ∧ Moves Spec (abs s₁) (status s₁) es (abs s₂) (status s₂))
    (hrun : Run Step s trace s')
    : Linearizable Spec (abs s) (trace.flatMap Prod.snd) := by
  have htracked : Inv s' ∧ ∃ log, Tracked Spec (abs s) (trace.flatMap Prod.snd) log (abs s') (status s') := by
    induction hrun with
    | nil => exact ⟨hinit, [], .init Spec (abs s) hidle⟩
    | snoc _ hlast ih =>
      rcases ih with ⟨hinv, log, ih⟩
      rcases hstep _ _ _ _ hinv hlast with ⟨hinv', hmoves⟩
      refine ⟨hinv', ?_⟩
      rw [List.flatMap_append, List.flatMap_singleton]
      exact ih.moves hmoves
  rcases htracked with ⟨_, log, h⟩
  exact ⟨log, h.linearization⟩

end Tracked

end Linearizability
