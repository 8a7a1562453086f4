import Sfap.Net.AddressKind.Recognizer

/-!
This module contains which kind an address is detected to be, and how the answer depends on a dot at the end and
on the case of letters.
-/

namespace Sfap

namespace Net

open Hostname

def classify (accepts4 accepts6 : List Byte → Bool) (s : List Byte) : AddressKind :=
  if s.length ≤ 254 ∧ accepts4 s = true then
    .ip4
  else if s.length ≤ 254 ∧ accepts6 s = true then
    .ip6
  else if IsRelative s then
    .hostname
  else
    .unknown

-- `inet_pton` neither accepts `s` nor fails on it
def InetPton.Rejects (pton : InetPton) (s : List Byte) : Prop :=
  (pton.ip4 s).1 ≠ 1 ∧ (pton.ip4 s).1 ≠ -1 ∧ (pton.ip6 s).1 ≠ 1 ∧ (pton.ip6 s).1 ≠ -1

instance (pton : InetPton) (s : List Byte) : Decidable (pton.Rejects s) :=
  inferInstanceAs (Decidable (_ ∧ _ ∧ _ ∧ _))

variable {pton : InetPton} {source source' : CString} {s : List Byte}

theorem toNat_strlen_eq (source : CString) : source.strlen.toNat = source.chars.bytes.length := by
  have hstrlen := String.toNat_strlen source
  unfold CString.chars
  rw [List.length_take]
  omega

theorem detectAddressKindString_eq {heap : Heap} {address : String} (hok : address.Ok heap)
    : ∃ source : CString, source.chars.bytes = (heap.bytes address.view).takeWhile (· != 0)
        ∧ detectAddressKindString pton heap address = detectAddressKind pton (some source) := by
  rcases String.cStr_read hok with ⟨source, hread, hchars⟩
  refine ⟨source, ?_, ?_⟩
  . rw [← hchars, String.chars_bytes]
  . unfold detectAddressKindString
    rw [hread]

theorem detect_empty (h : source.chars.bytes = [])
    : detectAddressKind pton (some source) = some (.ok .empty) := by
  have hzero : source.strlen = 0 := by
    rw [Word.eq_zero_iff_toNat, toNat_strlen_eq, h]
    rfl
  unfold detectAddressKind
  dsimp only
  rw [hzero]
  rfl

theorem detect_long (h : 254 < source.chars.bytes.length)
    : detectAddressKind pton (some source) = some (.ok .unknown) := by
  have hlen := toNat_strlen_eq source
  have hzero : ¬ source.strlen = 0 := by
    rw [Word.eq_zero_iff_toNat]
    omega
  have hlong : source.strlen > 254 := by
    rw [gt_iff_lt, UInt64.lt_iff_toNat_lt]
    change 254 < _
    omega
  unfold detectAddressKind
  simp [hzero, hlong]

theorem detect_eq (hne : source.chars.bytes ≠ []) (hle : source.chars.bytes.length ≤ 254)
    : detectAddressKind pton (some source)
        =
      let s := source.chars.bytes
      if (pton.ip4 s).1 = 1 then some (.ok .ip4)
      else if (pton.ip4 s).1 = -1 then some (.error (.networkError (pton.ip4 s).2))
      else if (pton.ip6 s).1 = 1 then some (.ok .ip6)
      else if (pton.ip6 s).1 = -1 then some (.error (.networkError (pton.ip6 s).2))
      else (isFqdn s).map fun fqdn => .ok (if fqdn then .hostname else .unknown) := by
  have hlen := toNat_strlen_eq source
  have hpos := List.length_pos_of_ne_nil hne
  have hzero : ¬ source.strlen = 0 := by
    rw [Word.eq_zero_iff_toNat]
    omega
  have hlong : ¬ source.strlen > 254 := by
    rw [gt_iff_lt, UInt64.lt_iff_toNat_lt]
    change ¬ 254 < _
    omega
  unfold detectAddressKind
  simp only [beq_iff_eq, hzero, hlong, ↓reduceIte]
  cases isFqdn source.chars.bytes with
  | none => rfl
  | some fqdn => cases fqdn <;> rfl

theorem detect_of_rejects (hne : source.chars.bytes ≠ []) (hle : source.chars.bytes.length ≤ 254)
    (h : pton.Rejects source.chars.bytes)
    : detectAddressKind pton (some source)
        =
      (isFqdn source.chars.bytes).map fun fqdn => .ok (if fqdn then .hostname else .unknown) := by
  rw [detect_eq hne hle]
  dsimp only
  rw [if_neg h.1, if_neg h.2.1, if_neg h.2.2.1, if_neg h.2.2.2]

theorem detect_eq_iff_of_rejects (hne : source.chars.bytes ≠ []) (hle : source.chars.bytes.length ≤ 254)
    (hne' : source'.chars.bytes ≠ []) (hle' : source'.chars.bytes.length ≤ 254)
    (h : pton.Rejects source.chars.bytes) (h' : pton.Rejects source'.chars.bytes)
    : detectAddressKind pton (some source) = detectAddressKind pton (some source')
        ↔
      isFqdn source.chars.bytes = isFqdn source'.chars.bytes := by
  rw [detect_of_rejects hne hle h, detect_of_rejects hne' hle' h']
  constructor
  . intro heq
    apply Option.map_injective _ heq
    intro fqdn fqdn' hkind
    cases fqdn <;> cases fqdn' <;> simp_all
  . intro heq
    rw [heq]

theorem detect_congr (hne : source.chars.bytes ≠ []) (hle : source.chars.bytes.length ≤ 254)
    (hne' : source'.chars.bytes ≠ []) (hle' : source'.chars.bytes.length ≤ 254)
    (h4 : pton.ip4 source.chars.bytes = pton.ip4 source'.chars.bytes)
    (h6 : pton.ip6 source.chars.bytes = pton.ip6 source'.chars.bytes)
    (hrejects : ¬ pton.Rejects source.chars.bytes)
    : detectAddressKind pton (some source) = detectAddressKind pton (some source') := by
  rw [detect_eq hne hle, detect_eq hne' hle']
  dsimp only
  rw [← h4, ← h6]
  unfold InetPton.Rejects at hrejects
  by_cases hip4 : (pton.ip4 source.chars.bytes).1 = 1
  . rw [if_pos hip4, if_pos hip4]
  . rw [if_neg hip4, if_neg hip4]
    by_cases hfail4 : (pton.ip4 source.chars.bytes).1 = -1
    . rw [if_pos hfail4, if_pos hfail4]
    . rw [if_neg hfail4, if_neg hfail4]
      by_cases hip6 : (pton.ip6 source.chars.bytes).1 = 1
      . rw [if_pos hip6, if_pos hip6]
      . rw [if_neg hip6, if_neg hip6]
        by_cases hfail6 : (pton.ip6 source.chars.bytes).1 = -1
        . rw [if_pos hfail6, if_pos hfail6]
        . exact absurd ⟨hip4, hfail4, hip6, hfail6⟩ hrejects

theorem isFqdn_isSome (s : List Byte) : ∃ fqdn, isFqdn s = some fqdn := by
  by_cases hdot : s.getLast? = some 46
  . rcases List.getLast?_eq_some_iff.mp hdot with ⟨t, rfl⟩
    exact ⟨_, isFqdn_dot t⟩
  . exact ⟨_, isFqdn_relative hdot⟩

theorem detect_isSome (pton : InetPton) (source : Option CString)
    : ∃ kind, detectAddressKind pton source = some kind := by
  cases source with
  | none => exact ⟨_, rfl⟩
  | some source =>
    by_cases hnil : source.chars.bytes = []
    . exact ⟨_, detect_empty hnil⟩
    . rcases Nat.lt_or_ge 254 source.chars.bytes.length with hlong | hle
      . exact ⟨_, detect_long hlong⟩
      . rcases isFqdn_isSome source.chars.bytes with ⟨fqdn, hfqdn⟩
        rw [detect_eq hnil hle]
        dsimp only
        rw [hfqdn]
        repeat' split
        all_goals exact ⟨_, rfl⟩

/--
A name that does not end in a dot is an address if `inet_pton` accepts it, and a hostname exactly when the
grammar has it.
-/
theorem detect_classifies {accepts4 accepts6 : List Byte → Bool}
    (h4 : ∀ s, (pton.ip4 s).1 = if accepts4 s then 1 else 0)
    (h6 : ∀ s, (pton.ip6 s).1 = if accepts6 s then 1 else 0)
    (hne : source.chars.bytes ≠ []) (hdot : source.chars.bytes.getLast? ≠ some 46)
    : detectAddressKind pton (some source)
        =
      some (.ok (classify accepts4 accepts6 source.chars.bytes)) := by
  generalize hs : source.chars.bytes = s at hne hdot ⊢
  unfold classify
  rcases Nat.lt_or_ge 254 s.length with hlong | hle
  . have hnot : ¬ IsRelative s := by
      intro h
      have := h.le
      omega
    rw [detect_long (by rw [hs]; exact hlong)]
    simp [Nat.not_le.mpr hlong, hnot]
  . rw [← hs] at hne hle
    rw [detect_eq hne hle, hs]
    rw [hs] at hle
    dsimp only
    rw [h4, h6, isFqdn_relative hdot]
    cases accepts4 s with
    | true => simp [hle]
    | false =>
      cases accepts6 s with
      | true => simp [hle]
      | false => simp

-- `"a.xn--p1"` and `"a.1"`
theorem detect_classifies_two_names
    : let names : List CString := [⟨[97, 46, 120, 110, 45, 45, 112, 49, 0], by decide, by decide⟩,
        ⟨[97, 46, 49, 0], by decide, by decide⟩]
      names.map (fun source => detectAddressKind ⟨fun _ => (0, 0), fun _ => (0, 0)⟩ (some source))
        = [some (.ok .hostname), some (.ok .unknown)] := by
  intro names
  have hreject : ∀ s : List Byte, ((0, 0) : Int32 × Int32).1 = if (fun _ => false : List Byte → Bool) s then 1 else 0 :=
    fun _ => rfl
  dsimp only [names, List.map]
  rw [detect_classifies hreject hreject (by decide) (by decide),
    detect_classifies hreject hreject (by decide) (by decide)]
  decide +kernel

/--
The absolute form of a name is accepted exactly when the relative form is, unless it is only the last label that
the relative form is refused for.
-/
theorem isFqdn_dot_iff (hle : s.length ≤ 253) (hdot : s.getLast? ≠ some 46)
    : isFqdn (s ++ [46]) = isFqdn s ↔ (Labelled s → IsTopLabel (top s)) := by
  rw [isFqdn_dot, isFqdn_relative hdot, Option.some.injEq, Bool.eq_iff_iff, decide_eq_true_eq,
    decide_eq_true_eq]
  constructor
  . intro h hlabelled
    exact (h.mp ⟨hle, hlabelled⟩).top
  . intro htop
    constructor
    . intro h
      exact ⟨hle, h.2, htop h.2⟩
    . intro h
      exact ⟨hle, h.labelled⟩

-- `"a.bc"`
theorem isFqdn_dot_of_letters : isFqdn ([97, 46, 98, 99] ++ [46]) = isFqdn [97, 46, 98, 99] := by
  have hletters : IsTopLabel (top [97, 46, 98, 99]) := by decide +kernel
  apply (isFqdn_dot_iff (by decide) (by decide)).mpr
  intro _
  exact hletters

-- `"1.2"` and `"1.2."`
theorem isFqdn_dot_of_digits
    : isFqdn [49, 46, 50] = some false ∧ isFqdn ([49, 46, 50] ++ [46]) = some true
        ∧ ¬ ∀ s : List Byte, s ≠ [] → s.length ≤ 253 → s.getLast? ≠ some 46 →
            isFqdn (s ++ [46]) = isFqdn s := by
  refine ⟨by decide, by decide, ?_⟩
  intro h
  exact absurd (h [49, 46, 50] (by decide) (by decide) (by decide)) (by decide)

theorem SameName.isRelative_iff_iff {s s' : List Byte} (h : SameName s s') (hle : s.length ≤ 253)
    (hlabelled : Labelled s)
    : (IsRelative s ↔ IsRelative s') ↔ (Puny (top s) ↔ Puny (top s')) := by
  have hlabelled' := h.labelled_iff.mp hlabelled
  have htop := h.top.isTopLabel_iff_iff (hlabelled _ (top_mem s)) (hlabelled' _ (top_mem s'))
  rw [← htop]
  have hle' : s'.length ≤ 253 := h.length_eq ▸ hle
  have hrelative : ∀ t : List Byte, t.length ≤ 253 → Labelled t → (IsRelative t ↔ IsTopLabel (top t)) := by
    intro t hle hlabelled
    exact ⟨fun ht => ht.top, fun ht => ⟨hle, hlabelled, ht⟩⟩
  rw [hrelative s hle hlabelled, hrelative s' hle' hlabelled']

theorem isFqdn_same_iff {s s' : List Byte} (h : SameName s s')
    : isFqdn s = isFqdn s'
        ↔
      (s.length ≤ 253 → s.getLast? ≠ some 46 → Labelled s → (Puny (top s) ↔ Puny (top s'))) := by
  by_cases hdot : s.getLast? = some 46
  . have hdot' := h.getLast?_eq_dot.mp hdot
    refine iff_of_true ?_ (fun _ hne => absurd hdot hne)
    rcases List.getLast?_eq_some_iff.mp hdot with ⟨t, rfl⟩
    rcases List.getLast?_eq_some_iff.mp hdot' with ⟨t', rfl⟩
    have ht : SameName t t' := by
      unfold SameName at h
      rw [List.map_append, List.map_append] at h
      exact List.append_cancel_right h
    rw [isFqdn_dot, isFqdn_dot, Option.some.injEq, Bool.eq_iff_iff, decide_eq_true_eq, decide_eq_true_eq,
      ht.labelled_iff, ht.length_eq]
  . have hdot' := mt h.getLast?_eq_dot.mpr hdot
    rw [isFqdn_relative hdot, isFqdn_relative hdot', Option.some.injEq, Bool.eq_iff_iff, decide_eq_true_eq,
      decide_eq_true_eq]
    constructor
    . intro hiff hle _ hlabelled
      exact (SameName.isRelative_iff_iff h hle hlabelled).mp hiff
    . intro hcond
      by_cases hgood : s.length ≤ 253 ∧ Labelled s
      . exact (SameName.isRelative_iff_iff h hgood.1 hgood.2).mpr (hcond hgood.1 hdot hgood.2)
      . apply iff_of_false
        . intro hs
          exact hgood ⟨hs.le, hs.labelled⟩
        . intro hs'
          exact hgood ⟨h.length_eq ▸ hs'.le, h.labelled_iff.mpr hs'.labelled⟩

/--
The case of letters matters only in the prefix that marks the last label of a name as punycode.
-/
theorem detect_same_iff
    (hpton : ∀ s s', SameName s s' → pton.ip4 s = pton.ip4 s' ∧ pton.ip6 s = pton.ip6 s')
    (h : SameName source.chars.bytes source'.chars.bytes)
    : detectAddressKind pton (some source) = detectAddressKind pton (some source')
        ↔
      (pton.Rejects source.chars.bytes → source.chars.bytes.length ≤ 253 →
        source.chars.bytes.getLast? ≠ some 46 → Labelled source.chars.bytes →
        (Puny (top source.chars.bytes) ↔ Puny (top source'.chars.bytes))) := by
  rcases hpton _ _ h with ⟨h4, h6⟩
  have hlength := h.length_eq
  rcases Nat.lt_or_ge 254 source.chars.bytes.length with hlong | hle
  . rw [detect_long hlong, detect_long (hlength ▸ hlong)]
    simp only [true_iff]
    omega
  . have hle' : source'.chars.bytes.length ≤ 254 := hlength ▸ hle
    by_cases hnil : source.chars.bytes = []
    . rw [detect_empty hnil, detect_empty (h.eq_nil_iff.mp hnil), hnil, h.eq_nil_iff.mp hnil]
      simp
    . have hnil' := mt h.eq_nil_iff.mpr hnil
      by_cases hrejects : pton.Rejects source.chars.bytes
      . have hrejects' : pton.Rejects source'.chars.bytes := by
          unfold InetPton.Rejects at hrejects ⊢
          rw [← h4, ← h6]
          exact hrejects
        rw [detect_eq_iff_of_rejects hnil hle hnil' hle' hrejects hrejects', isFqdn_same_iff h]
        simp only [hrejects, true_implies]
      . have heq := detect_congr hnil hle hnil' hle' h4 h6 hrejects
        exact iff_of_true heq (fun hr => absurd hr hrejects)

-- `"a.xn--p1"` and `"A.xn--P1"`
theorem detect_same_of_punycode
    : detectAddressKind ⟨fun _ => (0, 0), fun _ => (0, 0)⟩
          (some ⟨[97, 46, 120, 110, 45, 45, 112, 49, 0], by decide, by decide⟩)
        =
      detectAddressKind ⟨fun _ => (0, 0), fun _ => (0, 0)⟩
          (some ⟨[65, 46, 120, 110, 45, 45, 80, 49, 0], by decide, by decide⟩) := by
  apply (detect_same_iff (fun _ _ _ => ⟨rfl, rfl⟩) (by decide)).mpr
  intro _ _ _ _
  decide +kernel

-- `"a.xn--p1"` and `"a.XN--p1"`
theorem detect_differs_in_case
    : let lowerCase : CString := ⟨[97, 46, 120, 110, 45, 45, 112, 49, 0], by decide, by decide⟩
      let upperCase : CString := ⟨[97, 46, 88, 78, 45, 45, 112, 49, 0], by decide, by decide⟩
      let pton : InetPton := ⟨fun _ => (0, 0), fun _ => (0, 0)⟩
      (∀ s s', SameName s s' → pton.ip4 s = pton.ip4 s' ∧ pton.ip6 s = pton.ip6 s')
        ∧ SameName lowerCase.chars.bytes upperCase.chars.bytes
        ∧ detectAddressKind pton (some lowerCase) = some (.ok .hostname)
        ∧ detectAddressKind pton (some upperCase) = some (.ok .unknown) := by
  refine ⟨fun _ _ _ => ⟨rfl, rfl⟩, ?_⟩
  decide +kernel

end Net

end Sfap
