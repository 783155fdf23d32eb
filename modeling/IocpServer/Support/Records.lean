import Mathlib.Data.List.Basic
import Mathlib.Tactic.Common

/-!
# Support — Records

A stream of records that carry their own length.  `hdr` symbols make a header, from which `size`
reads the length of the whole record, header included.

`Complete hdr size bs` says that `bs` begins with a whole record, and `parse` cuts records off the
front as long as there is one.

* `parse_spec`, `parse_unique`: `parse` is the one way to write a stream as records followed by a
  tail that does not begin with a whole record.
* `parse_append`: parsing a longer stream resumes at the tail, when `size` reads only the header.
-/

namespace IocpServer.Records

variable {α : Type} (hdr : Nat) (size : List α → Nat)

/-- `bs` begins with a whole record. -/
def Complete (bs : List α) : Prop := hdr ≤ bs.length ∧ hdr ≤ size bs ∧ size bs ≤ bs.length

/-- `bs` begins with a header whose length is less than the header's own. -/
def Malformed (bs : List α) : Prop := hdr ≤ bs.length ∧ size bs < hdr

instance (bs : List α) : Decidable (Complete hdr size bs) :=
  inferInstanceAs (Decidable (_ ∧ _ ∧ _))

instance (bs : List α) : Decidable (Malformed hdr size bs) := inferInstanceAs (Decidable (_ ∧ _))

/-- At most `n` records off the front. -/
def parseWithin : Nat → List α → List (List α) × List α
  | 0, bs => ([], bs)
  | n + 1, bs =>
    if Complete hdr size bs then
      let (fs, t) := parseWithin n (bs.drop (size bs))
      (bs.take (size bs) :: fs, t)
    else ([], bs)

/-- The records of a stream and its unparsed tail. -/
def parse (bs : List α) : List (List α) × List α := parseWithin hdr size bs.length bs

/-- `fs` followed by `t` is `bs`, each of `fs` is a record, and `t` begins with none. -/
structure Parsed (bs : List α) (fs : List (List α)) (t : List α) : Prop where
  eq : bs = fs.flatten ++ t
  records : ∀ f ∈ fs, hdr ≤ f.length ∧ size f = f.length
  maximal : ¬ Complete hdr size t

/-- `size` reads only the header. -/
def ReadsHeader : Prop := ∀ a b : List α, hdr ≤ a.length → size (a ++ b) = size a

variable {hdr size}

/-- A record at the front of a stream is a complete one. -/
theorem complete_append (hs : ReadsHeader hdr size) {f : List α} (b : List α)
    (hf : hdr ≤ f.length ∧ size f = f.length) :
    Complete hdr size (f ++ b) ∧ size (f ++ b) = f.length := by
  have e : size (f ++ b) = f.length := (hs f b hf.1).trans hf.2
  refine ⟨⟨?_, by rw [e]; exact hf.1, ?_⟩, e⟩ <;> rw [List.length_append] <;> omega

/-- A whole record at the front, cut off. -/
theorem record_take (hs : ReadsHeader hdr size) {bs : List α} (h : Complete hdr size bs) :
    hdr ≤ (bs.take (size bs)).length ∧ size (bs.take (size bs)) = (bs.take (size bs)).length := by
  obtain ⟨-, h₂, h₃⟩ := h
  have hlen : (bs.take (size bs)).length = size bs := List.length_take_of_le h₃
  refine ⟨by rw [hlen]; exact h₂, ?_⟩
  have := hs (bs.take (size bs)) (bs.drop (size bs)) (by rw [hlen]; exact h₂)
  rw [List.take_append_drop] at this
  rw [hlen, ← this]

theorem parseWithin_spec (hs : ReadsHeader hdr size) (hpos : 0 < hdr) :
    ∀ (n : Nat) (bs : List α), bs.length ≤ n →
      Parsed hdr size bs (parseWithin hdr size n bs).1 (parseWithin hdr size n bs).2
  | 0, bs, h => by
      refine ⟨rfl, fun f hf => absurd hf List.not_mem_nil, fun hc => ?_⟩
      have h₁ := hc.1
      have : bs.length ≤ 0 := h
      simp only [parseWithin] at h₁
      omega
  | n + 1, bs, h => by
      by_cases hc : Complete hdr size bs
      · obtain ⟨e, hr, hm⟩ := parseWithin_spec hs hpos n (bs.drop (size bs)) (by
          rw [List.length_drop]; have := hc.2.1; have := hc.2.2; omega)
        simp only [parseWithin, if_pos hc]
        refine ⟨?_, fun f hf => ?_, hm⟩
        · rw [List.flatten_cons, List.append_assoc, ← e, List.take_append_drop]
        · rcases List.mem_cons.mp hf with rfl | hf
          · exact record_take hs hc
          · exact hr f hf
      · simp only [parseWithin, if_neg hc]
        exact ⟨rfl, fun f hf => absurd hf List.not_mem_nil, hc⟩

/-- `parse` writes a stream as records and a tail that begins with none. -/
theorem parse_spec (hs : ReadsHeader hdr size) (hpos : 0 < hdr) (bs : List α) :
    Parsed hdr size bs (parse hdr size bs).1 (parse hdr size bs).2 :=
  parseWithin_spec hs hpos bs.length bs (Nat.le_refl _)

/-- There is only one way to do so. -/
theorem Parsed.unique (hs : ReadsHeader hdr size) :
    ∀ {fs gs : List (List α)} {bs t u : List α}, Parsed hdr size bs fs t → Parsed hdr size bs gs u →
      fs = gs ∧ t = u
  | [], [], _, _, _, h, h' => by
      have e := h.eq.symm.trans h'.eq
      exact ⟨rfl, e⟩
  | [], g :: gs, bs, t, u, h, h' => by
      have e : bs = t := h.eq
      have e' : bs = g ++ (gs.flatten ++ u) := by rw [← List.append_assoc]; exact h'.eq
      exact absurd (e' ▸ (complete_append hs _ (h'.records g List.mem_cons_self)).1) (e ▸ h.maximal)
  | f :: fs, [], bs, t, u, h, h' => by
      have e : bs = u := h'.eq
      have e' : bs = f ++ (fs.flatten ++ t) := by rw [← List.append_assoc]; exact h.eq
      exact absurd (e' ▸ (complete_append hs _ (h.records f List.mem_cons_self)).1) (e ▸ h'.maximal)
  | f :: fs, g :: gs, bs, t, u, h, h' => by
      have ef : bs = f ++ (fs.flatten ++ t) := by rw [← List.append_assoc]; exact h.eq
      have eg : bs = g ++ (gs.flatten ++ u) := by rw [← List.append_assoc]; exact h'.eq
      have hf := (complete_append hs (fs.flatten ++ t) (h.records f List.mem_cons_self)).2
      have hg := (complete_append hs (gs.flatten ++ u) (h'.records g List.mem_cons_self)).2
      rw [← ef] at hf
      rw [← eg] at hg
      obtain ⟨rfl, e⟩ := List.append_inj (ef.symm.trans eg) (hf.symm.trans hg)
      obtain ⟨rfl, rfl⟩ := Parsed.unique hs
        ⟨rfl, fun x hx => h.records x (List.mem_cons_of_mem _ hx), h.maximal⟩
        ⟨e, fun x hx => h'.records x (List.mem_cons_of_mem _ hx), h'.maximal⟩
      exact ⟨rfl, rfl⟩

theorem Parsed.eq_parse (hs : ReadsHeader hdr size) (hpos : 0 < hdr) {bs t : List α}
    {fs : List (List α)} (h : Parsed hdr size bs fs t) : (fs, t) = parse hdr size bs := by
  obtain ⟨e₁, e₂⟩ := h.unique hs (parse_spec hs hpos bs)
  rw [e₁, e₂]

/-- **Parsing resumes at the tail.** -/
theorem Parsed.append {xs ys t u : List α} {fs gs : List (List α)} (h : Parsed hdr size xs fs t)
    (h' : Parsed hdr size (t ++ ys) gs u) : Parsed hdr size (xs ++ ys) (fs ++ gs) u where
  eq := by
    rw [h.eq, List.append_assoc, h'.eq, List.flatten_append, List.append_assoc]
  records f hf := by
    rcases List.mem_append.mp hf with hf | hf
    · exact h.records f hf
    · exact h'.records f hf
  maximal := h'.maximal

/-- Records in front of a stream that is parsed. -/
theorem Parsed.after {fs gs : List (List α)} {xs t : List α} (h : Parsed hdr size xs gs t)
    (hf : ∀ f ∈ fs, hdr ≤ f.length ∧ size f = f.length) :
    Parsed hdr size (fs.flatten ++ xs) (fs ++ gs) t where
  eq := by rw [h.eq, List.flatten_append, List.append_assoc]
  records f hmem := (List.mem_append.mp hmem).elim (hf f) (h.records f)
  maximal := h.maximal

/-- A malformed header stays one, and no record begins there. -/
theorem Malformed.append (hs : ReadsHeader hdr size) {bs : List α} (h : Malformed hdr size bs)
    (ys : List α) : Malformed hdr size (bs ++ ys) ∧ ¬ Complete hdr size (bs ++ ys) := by
  have hlen : hdr ≤ (bs ++ ys).length := by
    rw [List.length_append]
    exact Nat.le_trans h.1 (Nat.le_add_right ..)
  have hsize : size (bs ++ ys) < hdr := by
    rw [hs bs ys h.1]
    exact h.2
  exact ⟨⟨hlen, hsize⟩, fun hc => absurd hc.2.1 (Nat.not_le.mpr hsize)⟩

/-- Parsing stops at a malformed header. -/
theorem Parsed.stop (hs : ReadsHeader hdr size) {bs t : List α} {fs : List (List α)}
    (h : Parsed hdr size bs fs t) (hm : Malformed hdr size t) (ys : List α) :
    Parsed hdr size (bs ++ ys) fs (t ++ ys) where
  eq := by rw [h.eq, List.append_assoc]
  records := h.records
  maximal := (hm.append hs ys).2

/-- **Records in front of a first part of a stream of records** are the first of these. -/
theorem prefix_of_flatten (hs : ReadsHeader hdr size) (hpos : 0 < hdr) {fs : List (List α)} :
    ∀ {gs : List (List α)} {t : List α}, (∀ f ∈ fs, hdr ≤ f.length ∧ size f = f.length) →
      (∀ g ∈ gs, hdr ≤ g.length ∧ size g = g.length) → fs.flatten ++ t <+: gs.flatten → fs <+: gs := by
  induction fs with
  | nil =>
    intro gs t _ _ _
    exact List.nil_prefix
  | cons f fs ih =>
    intro gs t hf hg hpre
    obtain ⟨hf₀, hfs⟩ := List.forall_mem_cons.mp hf
    cases gs with
    | nil =>
      have hlen := hpre.length_le
      rw [List.flatten_nil, List.length_nil, List.flatten_cons, List.append_assoc,
        List.length_append] at hlen
      omega
    | cons g gs =>
      obtain ⟨hg₀, hgs⟩ := List.forall_mem_cons.mp hg
      rw [List.flatten_cons, List.flatten_cons, List.append_assoc] at hpre
      -- both records are as long as the header in front of the stream says
      have hfront : f <+: g ++ gs.flatten := (List.prefix_append f _).trans hpre
      obtain ⟨u, hu⟩ := hfront
      have hlen : f.length = g.length := by
        rw [← (complete_append hs u hf₀).2, hu]
        exact (complete_append hs gs.flatten hg₀).2
      obtain ⟨rfl, -⟩ := List.append_inj hu hlen
      rw [List.prefix_append_right_inj] at hpre
      exact (List.prefix_cons_inj f).mpr (ih hfs hgs hpre)

/-- What is behind them is no malformed header. -/
theorem not_malformed (hs : ReadsHeader hdr size) (hpos : 0 < hdr) {fs gs : List (List α)}
    {t : List α} (hf : ∀ f ∈ fs, hdr ≤ f.length ∧ size f = f.length)
    (hg : ∀ g ∈ gs, hdr ≤ g.length ∧ size g = g.length) (h : fs.flatten ++ t <+: gs.flatten) :
    ¬ Malformed hdr size t := by
  rintro ⟨hlen, hshort⟩
  obtain ⟨rest, rfl⟩ := prefix_of_flatten hs hpos hf hg h
  rw [List.flatten_append, List.prefix_append_right_inj] at h
  cases rest with
  | nil =>
    have := h.length_le
    rw [List.flatten_nil, List.length_nil] at this
    omega
  | cons g rest =>
    have hg₀ := hg g (List.mem_append_right fs List.mem_cons_self)
    obtain ⟨u, hu⟩ := h
    have hsize := (complete_append hs rest.flatten hg₀).2
    rw [← List.flatten_cons, ← hu, hs t u hlen] at hsize
    omega

end IocpServer.Records
