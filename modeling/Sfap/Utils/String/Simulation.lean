import Sfap.Utils.String.World

/-!
This module contains the proof that any number of strings on one heap behave like as many bounded
lists of characters.
-/

namespace Sfap

namespace String

theorem Represents.isValid_eq {heap : Heap} {s : String} {x : Option Chars}
    (h : s.Represents heap x)
    : s.isValid = x.isSome := by
  cases x with
  | none => exact isValid_of_null h
  | some c =>
    rcases h with ⟨p, hp, _⟩
    apply isValid_of_data hp

namespace World

variable {w w' : World} {a : CharsWorld} {v u : Nat} {s s' t : String} {x x' : Option Chars}
  {heap' : Heap} {o : Out}

theorem Refines.construction (h : w.Refines a) (v : Nat) (hc : Construction w.heap x heap' s)
    : (World.mk heap' (set w.strings v (some s))).Refines (a.set v (some x)) := by
  apply h.update
  . intro t ht
    cases ht
    exact hc.ok
  . exact .some hc.represents
  . intro t p u t' q ht hp _ ht' hq
    cases ht
    have hnew := hc.new p hp
    have hold := ((h.inv.ok u t' ht').backs q hq).block_lt
    omega
  . intro u t q _ ht hq
    apply hc.outside
    exact ((h.inv.ok u t ht).backs q hq).block_lt

theorem Refines.mutation (h : w.Refines a) (hs : w.strings v = some s)
    (hm : Mutation w.heap s x heap' s')
    : (World.mk heap' (set w.strings v (some s'))).Refines (a.set v (some x)) := by
  apply h.update
  . intro t ht
    cases ht
    exact hm.ok
  . exact .some hm.represents
  . intro t p u t' q ht hp hne ht' hq
    cases ht
    rw [hm.data_eq] at hp
    apply h.inv.apart v u s t' p q hs ht' hne.symm hp hq
  . intro u t q hne ht hq
    apply hm.outside
    intro p hp
    apply h.inv.apart u v t s q p ht hs hne hq hp

theorem Refines.destruction (h : w.Refines a) (hs : w.strings v = some s)
    : (World.mk (s.destroy w.heap) (set w.strings v none)).Refines (a.set v none) := by
  apply h.update
  . simp
  . exact .none
  . simp
  . intro u t q hne ht hq
    apply s.data.destroy_blocks
    intro p hp
    apply h.inv.apart u v t s q p ht hs hne hq hp

theorem Refines.moves (h : w.Refines a) (hne : v ≠ u) {other : String} (hu : w.strings u = some other)
    (hx : a u = some x)
    (hframe : ∀ i t q, i ≠ v → w.strings i = some t → t.data.data = some q →
      heap'.blocks q.block = w.heap.blocks q.block)
    : (World.mk heap' (set (set w.strings v (some other)) u (some ⟨.movedFrom⟩))).Refines
        ((a.set v (some x)).set u (some none)) := by
  have hother : other.Represents w.heap x := by
    rcases h.of_some hu with ⟨y, hy, _, hrep⟩
    rw [hx] at hy
    cases hy
    exact hrep
  have hmoved : (World.mk w.heap (set w.strings u (some ⟨.movedFrom⟩))).Refines
      (a.set u (some none)) := by
    apply h.update
    . intro t ht
      cases ht
      apply Ok.of_null rfl
    . exact .some rfl
    . intro t p i t' q ht hp
      cases ht
      simp [Buffer.movedFrom] at hp
    . intro _ _ _ _ _ _
      rfl
  have hcomm : (a.set v (some x)).set u (some none) = (a.set u (some none)).set v (some x) := by
    funext i
    unfold CharsWorld.set
    by_cases hi : i = u
    . rw [if_pos hi, if_neg (by omega), if_pos hi]
    . rw [if_neg hi, if_neg hi]
  have hkeeps : ∀ p, other.data.data = some p → heap'.blocks p.block = w.heap.blocks p.block := by
    intro p hp
    apply hframe u other p hne.symm hu hp
  rw [set_comm _ _ _ hne.symm, hcomm]
  apply hmoved.update
  . intro t ht
    cases ht
    exact (h.inv.ok u other hu).frame hkeeps
  . exact .some (hother.frame hkeeps)
  . dsimp only
    intro t p i t' q ht hp hi ht' hq
    cases ht
    by_cases heq : i = u
    . rw [heq, strings_set] at ht'
      cases ht'
      simp [Buffer.movedFrom] at hq
    . rw [strings_set_ne _ _ heq] at ht'
      apply h.inv.apart u i other t' p q hu ht' (Ne.symm heq) hp hq
  . dsimp only
    intro i t q hi ht hq
    by_cases heq : i = u
    . rw [heq, strings_set] at ht
      cases ht
      simp [Buffer.movedFrom] at hq
    . rw [strings_set_ne _ _ heq] at ht
      apply hframe i t q hi ht hq

theorem construct_refines (h : w.Refines a) {result : String × Heap}
    (hc : Construction w.heap x result.2 result.1) (hstep : w.construct v result = some (w', o))
    : ∃ a', a.Constructs v x o a' ∧ w'.Refines a' := by
  unfold construct at hstep
  split at hstep
  . simp at hstep
  . next hv =>
    cases hstep
    refine ⟨a.set v (some x), ⟨h.of_none hv, ?_, rfl⟩, h.construction v hc⟩
    rw [hc.represents.isValid_eq]

theorem mutate_refines (h : w.Refines a) {content : List Byte → List Byte}
    {f : String → Bool × String × Heap}
    (hf : ∀ s x, s.Ok w.heap → s.Represents w.heap x → Replaces w.heap s x content (f s))
    (hstep : w.mutate v f = some (w', o))
    : ∃ a', a.Replaces v content o a' ∧ w'.Refines a' := by
  unfold mutate at hstep
  split at hstep
  . simp at hstep
  . next s hs =>
    rcases h.of_some hs with ⟨x, hx, hok, hrep⟩
    rcases hf s x hok hrep with ⟨hflag, hm, _⟩
    cases hstep
    refine ⟨a.set v (some (Chars.replace x content).2), ⟨x, hx, ?_, rfl⟩, h.mutation hs hm⟩
    rw [hflag]

theorem resize_refines (h : w.Refines a) {n : SizeT} (hstep : w.step (.resize v n) = some (w', o))
    : ∃ a', CharsWorld.Step a (.resize v n) o a' ∧ w'.Refines a' := by
  unfold step mutate at hstep
  dsimp only at hstep
  split at hstep
  . simp at hstep
  . next s hs =>
    rcases h.of_some hs with ⟨x, hx, hok, hrep⟩
    rcases resize_spec hok hrep n with ⟨x', hres, hm, _⟩
    cases hstep
    exact ⟨a.set v (some x'), ⟨x, _, x', hx, hres, rfl, rfl⟩, h.mutation hs hm⟩

theorem move_refines (h : w.Refines a) (hstep : w.step (.moveAssign v u) = some (w', o))
    : ∃ a', CharsWorld.Step a (.moveAssign v u) o a' ∧ w'.Refines a' := by
  unfold step at hstep
  dsimp only at hstep
  split at hstep
  . next s other hs hu =>
    rcases h.of_some hs with ⟨y, hy, _⟩
    rcases h.of_some hu with ⟨x, hx, _⟩
    refine ⟨_, ⟨x, ⟨y, hy⟩, hx, ?_, rfl⟩, ?_⟩
    . split at hstep <;> cases hstep <;> rfl
    . split at hstep
      . next heq =>
        cases hstep
        rw [if_pos heq]
        exact h
      . next hne =>
        cases hstep
        rw [if_neg hne]
        apply h.moves hne hu hx
        intro i t q hi ht hq
        apply s.data.destroy_blocks
        intro p hp
        apply h.inv.apart i v t s q p ht hs hi hq hp
  . simp at hstep

theorem step_refines (h : w.Refines a) {op : Op} (hstep : w.step op = some (w', o))
    : ∃ a', CharsWorld.Step a op o a' ∧ w'.Refines a' := by
  cases op with
  | ofView v source garbage =>
    apply construct_refines h (ofView_spec w.heap source garbage) hstep
  | ofCString v source garbage =>
    cases source with
    | none => apply construct_refines h (ofCString_null_spec w.heap garbage) hstep
    | some source => apply construct_refines h (ofCString_spec w.heap source garbage) hstep
  | ofSize v n garbage => apply construct_refines h (ofSize_spec w.heap n garbage) hstep
  | copy v u garbage =>
    unfold step at hstep
    dsimp only at hstep
    split at hstep
    . simp at hstep
    . next other hu =>
      rcases h.of_some hu with ⟨x, hx, hok, hrep⟩
      rcases construct_refines h (copy_spec hok hrep garbage) hstep with ⟨a', hcons, href⟩
      exact ⟨a', ⟨x, hx, hcons⟩, href⟩
  | destroy v =>
    unfold step at hstep
    dsimp only at hstep
    split at hstep
    . simp at hstep
    . next s hs =>
      rcases h.of_some hs with ⟨x, hx, _⟩
      cases hstep
      exact ⟨a.set v none, ⟨⟨x, hx⟩, rfl, rfl⟩, h.destruction hs⟩
  | assign v source =>
    unfold step at hstep
    dsimp only at hstep
    split at hstep
    . apply mutate_refines h _ hstep
      intro s x hok hx
      apply assign_spec hok hx source
    . simp at hstep
  | assignCString v source =>
    apply mutate_refines h _ hstep
    intro s x hok hx
    rw [← charsOf_bytes]
    apply assign_spec hok hx (CString.charsOf source)
  | append v source =>
    unfold step at hstep
    dsimp only at hstep
    split at hstep
    . next hle =>
      apply mutate_refines h _ hstep
      intro s x hok hx
      apply append_spec hok hx source hle
    . simp at hstep
  | appendCString v source =>
    apply mutate_refines h _ hstep
    intro s x hok hx
    rw [← charsOf_bytes]
    apply append_spec hok hx (CString.charsOf source) (length_charsOf_le source)
  | pushBack v ch =>
    apply mutate_refines h _ hstep
    intro s x hok hx
    apply pushBack_spec hok hx ch
  | resize v n => exact resize_refines h hstep
  | clean v =>
    unfold step at hstep
    dsimp only at hstep
    split at hstep
    . simp at hstep
    . next s hs =>
      rcases h.of_some hs with ⟨x, hx, hok, hrep⟩
      cases hstep
      exact ⟨_, ⟨x, hx, rfl, rfl⟩, h.mutation hs (clean_spec hok hrep)⟩
  | moveConstruct v u =>
    unfold step at hstep
    dsimp only at hstep
    split at hstep
    . next other hv hu =>
      rcases h.of_some hu with ⟨x, hx, _⟩
      have hne : v ≠ u := by
        intro heq
        rw [heq, hu] at hv
        simp at hv
      cases hstep
      refine ⟨_, ⟨x, h.of_none hv, hx, rfl, rfl⟩, h.moves hne hu hx ?_⟩
      intro _ _ _ _ _ _
      rfl
    . simp at hstep
  | moveAssign v u => exact move_refines h hstep

theorem run_refines {heap : Heap} {trace : List (Op × Out)}
    (hrun : Transition.Run (Transition.ofStep step) (init heap) trace w)
    : ∃ a, Transition.Run CharsWorld.Step (fun _ => none) trace a ∧ w.Refines a := by
  apply hrun.simulate (.init heap)
  intro w a op o w' href hstep
  apply step_refines href hstep

theorem run_ok {heap : Heap} {trace : List (Op × Out)}
    (hrun : Transition.Run (Transition.ofStep step) (init heap) trace w) (hs : w.strings v = some s)
    : s.Ok w.heap := by
  rcases run_refines hrun with ⟨_, _, href⟩
  apply href.inv.ok v s hs

theorem not_construct_flag {result : String × Heap} {ok : Bool}
    : ¬ w.construct v result = some (w', .flag ok) := by
  unfold construct
  split <;> simp

theorem mutate_false (h : w.Refines a) {f : String → Bool × String × Heap}
    (hf : ∀ s x, s.Ok w.heap → s.Represents w.heap x → (f s).1 = false → (f s).2 = (s, w.heap))
    (hstep : w.mutate v f = some (w', .flag false))
    : w' = w := by
  unfold mutate at hstep
  split at hstep
  . simp at hstep
  . next s hs =>
    rcases h.of_some hs with ⟨x, _, hok, hrep⟩
    have hsame := hf s x hok hrep
    generalize f s = r at hstep hsame
    rcases r with ⟨ok, s', heap'⟩
    simp only [Option.some.injEq, Prod.mk.injEq, Out.flag.injEq] at hstep
    rcases hstep with ⟨rfl, rfl⟩
    cases hsame rfl
    rw [set_self hs]

theorem step_false (h : w.Refines a) {op : Op} (hstep : w.step op = some (w', .flag false))
    : w' = w := by
  cases op with
  | ofView v source garbage => exact absurd hstep not_construct_flag
  | ofCString v source garbage => exact absurd hstep not_construct_flag
  | ofSize v n garbage => exact absurd hstep not_construct_flag
  | copy v u garbage =>
    simp only [step] at hstep
    split at hstep
    . simp at hstep
    . exact absurd hstep not_construct_flag
  | destroy v =>
    simp only [step] at hstep
    split at hstep <;> simp at hstep
  | assign v source =>
    simp only [step] at hstep
    split at hstep
    . apply mutate_false h _ hstep
      intro s x hok hx
      exact (assign_spec hok hx source).2.2
    . simp at hstep
  | assignCString v source =>
    apply mutate_false h _ hstep
    intro s x hok hx
    exact (assign_spec hok hx (CString.charsOf source)).2.2
  | append v source =>
    simp only [step] at hstep
    split at hstep
    . next hle =>
      apply mutate_false h _ hstep
      intro s x hok hx
      exact (append_spec hok hx source hle).2.2
    . simp at hstep
  | appendCString v source =>
    apply mutate_false h _ hstep
    intro s x hok hx
    exact (append_spec hok hx (CString.charsOf source) (length_charsOf_le source)).2.2
  | pushBack v ch =>
    apply mutate_false h _ hstep
    intro s x hok hx
    exact (pushBack_spec hok hx ch).2.2
  | resize v n =>
    apply mutate_false h _ hstep
    intro s x hok hx
    rcases resize_spec hok hx n with ⟨_, _, _, hsame⟩
    exact hsame
  | clean v =>
    simp only [step] at hstep
    split at hstep <;> simp at hstep
  | moveConstruct v u =>
    simp only [step] at hstep
    split at hstep <;> simp at hstep
  | moveAssign v u =>
    simp only [step] at hstep
    split at hstep
    . split at hstep <;> simp at hstep
    . simp at hstep

end World

def Shows (heap : Heap) (s : String) : Option Chars → Prop
  | none => s.isValid = false ∧ s.size = 0 ∧ s.view = ⟨none, 0⟩ ∧ ∀ i, s.atIndex heap i = none
  | some c =>
    s.isValid = true ∧ s.data.size.toNat = s.size.toNat + 1
      ∧ s.size.toNat ≤ s.capacity.toNat
      ∧ (∃ p, s.data.data = some p ∧ heap.load (p.add s.size.toNat) 1 = [0])
      ∧ s.capacity.toNat = c.capacity ∧ s.size.toNat = c.chars.length
      ∧ heap.bytes s.view = c.chars ∧ ∀ i, s.atIndex heap i = c.chars[i.toNat]?

theorem load_terminator {heap : Heap} {s : String} {p : Ptr} (hok : s.Ok heap) (hp : s.data.data = some p)
    : heap.load (p.add s.size.toNat) 1 = [0] := by
  have hused := hok.used p hp
  have hterminator := hok.terminator p hp
  have hsize := toNat_size hok hp
  rcases List.getElem?_eq_some_iff.mp hterminator with ⟨hlt, hzero⟩
  rw [heap.load_add (n := s.data.size.toNat) (by omega), hsize, List.drop_eq_getElem_cons hlt, hzero]
  rfl

theorem atIndex_eq {heap : Heap} {s : String} {p : Ptr} (hok : s.Ok heap) (hp : s.data.data = some p)
    (i : SizeT)
    : s.atIndex heap i = (heap.bytes s.view)[i.toNat]? := by
  have hlength := length_load_size hok hp
  unfold atIndex
  rw [isValid_of_data hp, bytes_view hp, Bool.not_true, Bool.false_or]
  split
  . next hge =>
    rw [List.getElem?_eq_none]
    rw [hlength]
    exact UInt64.le_iff_toNat_le.mp (of_decide_eq_true hge)
  . next hlt =>
    have hlt : i.toNat < s.size.toNat := by
      rw [decide_eq_true_eq, ge_iff_le, UInt64.le_iff_toNat_le, Nat.not_le] at hlt
      exact hlt
    rw [Buffer.getElem?_load hp _ hlt]
    apply (hok.backs p hp).mono
    have := s.data.size_le
    have := toNat_size hok hp
    omega

theorem Represents.shows {heap : Heap} {s : String} {x : Option Chars} (hx : s.Represents heap x)
    (hok : s.Ok heap)
    : s.Shows heap x := by
  have hview := view_spec hok hx
  cases x with
  | none =>
    have hvalid := isValid_of_null hx
    unfold Shows size view atIndex
    simp [hvalid]
  | some c =>
    rcases hx with ⟨p, hp, hcapacity, _⟩
    have hused := hok.used p hp
    have hsize := toNat_size hok hp
    refine ⟨isValid_of_data hp, by omega, size_le_capacity hok hp, ⟨p, hp, load_terminator hok hp⟩, hcapacity,
      hview.2, hview.1, ?_⟩
    intro i
    rw [atIndex_eq hok hp, hview.1]
    rfl

theorem refines_chars (heap : Heap) {trace : List (Op × Out)} {w : World}
    (hrun : Transition.Run (Transition.ofStep World.step) (World.init heap) trace w)
    : (∃ a, Transition.Run CharsWorld.Step (fun _ => none) trace a
          ∧ ∀ v, Option.Rel (Shows w.heap) (w.strings v) (a v))
        ∧
      ∀ op w', w.step op = some (w', .flag false) → w' = w := by
  rcases World.run_refines hrun with ⟨a, hspec, href⟩
  refine ⟨⟨a, hspec, ?_⟩, ?_⟩
  . intro v
    have hrel := href.stands v
    generalize hs : w.strings v = r at hrel ⊢
    generalize a v = y at hrel ⊢
    cases hrel with
    | none => exact .none
    | some hx => exact .some (hx.shows (href.inv.ok v _ hs))
  . intro op w' hstep
    apply World.step_false href hstep

theorem refines_chars_of_moved_from
    : let source (bytes : List Byte) (h : bytes.length < 2 ^ 64) : Source := ⟨bytes, h⟩
      let ops : List Op :=
        [.ofView 0 (source [97, 98] (by decide)) (some fun _ => 7), .copy 1 0 none, .pushBack 0 99,
          .resize 0 1, .pushBack 0 99, .moveConstruct 2 0, .append 0 (source [] (by decide))]
      let outs : List Out :=
        [.valid true, .valid false, .flag false, .flag true, .flag true, .done, .flag false]
      ∃ a, Transition.Run CharsWorld.Step (fun _ => none) (ops.zip outs) a
        ∧ (a 2).map (·.map Chars.chars) = some (some [97, 99]) := by
  intro source ops outs
  have hexec : ((Transition.exec World.step (World.init Memory.empty) ops).map fun r =>
      (r.2, (r.1.strings 2).map fun s => (s.isValid, r.1.heap.bytes s.view)))
        = some (outs, some (true, [97, 99])) := by decide
  rcases Option.map_eq_some_iff.mp hexec with ⟨⟨w, outs'⟩, hexec, heq⟩
  simp only [Prod.mk.injEq] at heq
  rcases heq with ⟨rfl, hview⟩
  rcases (refines_chars Memory.empty (Transition.run_of_exec hexec)).1 with ⟨a, hspec, hrel⟩
  refine ⟨a, hspec, ?_⟩
  have hshows := hrel 2
  generalize w.strings 2 = r at hshows hview
  generalize a 2 = y at hshows ⊢
  cases hshows with
  | none => simp at hview
  | @some s x hx =>
    simp only [Option.map_some, Option.some.injEq, Prod.mk.injEq] at hview
    cases x with
    | none => simp [hx.1] at hview
    | some c =>
      rcases hx with ⟨_, _, _, _, _, _, hchars, _⟩
      rw [hview.2] at hchars
      rw [Option.map_some, Option.map_some, hchars]

end String

end Sfap
