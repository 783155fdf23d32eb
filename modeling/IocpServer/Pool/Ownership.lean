import IocpServer.Pool.References
import IocpServer.Pool.SharedPoolPtr
import IocpServer.Support.Runs
import IocpServer.Support.Total

/-!
# Pool — Ownership

Which references a pointer object accounts for while an operation on it is in progress, and that
every atomic step is a step on the pool's books or changes nothing there.

* `Legit`: what the callers promise.  An object that `Guarded` holds of is used by one operation at
  a time, or read by several; copies from any other object may race.
* `Shape`: what the operations in progress rely on, kept by every step.
* `step_simulates`: `Pointers` refines `References`.
-/

namespace IocpServer

/-- The handle saved for later, as a bag. -/
def saved (current : Option Nat) : Multiset Nat := current.elim 0 fun h => {h}

namespace SharedPoolPtr

variable {ι : Type}

/-- The reference that the fields stand for. -/
def own (p : SharedPoolPtr ι) : Multiset Nat := if p.pool then {p.handle} else 0

/-- What remains counted when the reference given up is gone. -/
def remaining (p : SharedPoolPtr ι) : After ι → Multiset Nat
  | .done => p.own
  | _ => 0

/-- The counted references of an object and of the operation on it. -/
def held (p : SharedPoolPtr ι) : Multiset Nat :=
  match p.pc with
  | .idle | .leaveHandle _ => p.own
  | .copyPool _ current | .copyHandle _ current | .addRef _ current => saved current
  | .release h after => p.remaining after + {h}
  | .push _ after => p.remaining after
  | _ => 0

/-- The slot that the operation has popped and not counted yet, or not pushed yet. -/
def kept (p : SharedPoolPtr ι) : Multiset Nat :=
  match p.pc with
  | .init h | .construct h | .push h _ => {h}
  | _ => 0

theorem held_idle {p : SharedPoolPtr ι} (h : p.pc = .idle) : p.held = p.own := by
  rw [held, h]

theorem kept_idle {p : SharedPoolPtr ι} (h : p.pc = .idle) : p.kept = 0 := by
  rw [kept, h]

theorem own_current (p : SharedPoolPtr ι) : saved p.current = p.own := by
  rw [current, own]
  split <;> rfl

theorem held_andThen (p : SharedPoolPtr ι) (after : After ι) :
    (p.andThen after).held = p.remaining after := by
  cases after <;> rfl

theorem kept_andThen (p : SharedPoolPtr ι) (after : After ι) : (p.andThen after).kept = 0 := by
  cases after <;> rfl

theorem held_releaseThen (p : SharedPoolPtr ι) {after : After ι} (h : after ≠ .done) :
    (p.releaseThen after).held = p.own := by
  have hrest : p.remaining after = 0 := by
    cases after with
    | done => exact absurd rfl h
    | take | reset | destroy => rfl
  rw [releaseThen, own]
  split
  · show p.remaining after + {p.handle} = _
    rw [hrest, zero_add]
  · rw [held_andThen, hrest]

theorem kept_releaseThen (p : SharedPoolPtr ι) (after : After ι) :
    (p.releaseThen after).kept = 0 := by
  rw [releaseThen]
  split
  · rfl
  · exact kept_andThen p after

theorem held_copied (p : SharedPoolPtr ι) (current : Option Nat) :
    (p.copied current).held = p.own + saved current := by
  cases current with
  | none => exact (add_zero p.own).symm
  | some h => rfl

theorem kept_copied (p : SharedPoolPtr ι) (current : Option Nat) : (p.copied current).kept = 0 := by
  cases current <;> rfl

theorem card_own (p : SharedPoolPtr ι) : p.own.card ≤ 1 := by
  rw [own]
  split
  · exact le_rfl
  · exact Nat.zero_le 1

theorem card_saved (current : Option Nat) : (saved current).card ≤ 1 := by
  cases current with
  | none => exact Nat.zero_le 1
  | some h => exact le_rfl

theorem card_remaining (p : SharedPoolPtr ι) (after : After ι) : (p.remaining after).card ≤ 1 := by
  cases after with
  | done => exact card_own p
  | take | reset | destroy => exact Nat.zero_le 1

/-- An object accounts for two references at most. -/
theorem card_held (p : SharedPoolPtr ι) : p.held.card ≤ 2 := by
  have h₁ := card_own p
  rw [held]
  split
  · omega
  · omega
  · exact (card_saved _).trans (by decide)
  · exact (card_saved _).trans (by decide)
  · exact (card_saved _).trans (by decide)
  · rename_i h after _
    rw [Multiset.card_add, Multiset.card_singleton]
    exact Nat.succ_le_succ (card_remaining p after)
  · exact (card_remaining p _).trans (by decide)
  · exact Nat.zero_le 2

/-- What the reads of an operation on `p` have found in its source `q`. -/
def Agrees (p q : SharedPoolPtr ι) : Prop :=
  match p.pc with
  | .copyHandle _ _ | .takeHandle _ => p.pool = q.pool
  | .addRef _ _ | .leavePool _ => p.pool = q.pool ∧ p.handle = q.handle
  | .leaveHandle _ => q.pool = false
  | _ => True

end SharedPoolPtr

/-- What the operation has established about `p` alone. -/
def SharedPoolPtr.Sound {ι : Type} (p : SharedPoolPtr ι) : Prop :=
  match p.pc with
  | .acquire state => state ≠ 0
  | .clearHandle => p.pool = false
  | _ => True

/-- The object that is moved from in the end. -/
def After.taken {ι : Type} : After ι → Option ι
  | .take other => some other
  | _ => none

namespace Pc

variable {ι : Type}

/-- The object that the operation copies from. -/
def source : Pc ι → Option ι
  | .copyPool other _ | .copyHandle other _ | .addRef other _ => some other
  | _ => none

/-- The object that the operation moves from. -/
def taken : Pc ι → Option ι
  | .release _ after | .push _ after => after.taken
  | .takePool other | .takeHandle other | .leavePool other | .leaveHandle other => some other
  | _ => none

/-- The next step needs `cs_`. -/
def Locks : Pc ι → Prop
  | .acquire _ | .push _ _ => True
  | _ => False

end Pc

namespace SharedPoolPtr

variable {ι : Type} {p : SharedPoolPtr ι} {after : After ι}

/-- Nothing read so far is relied on. -/
structure Plain (p : SharedPoolPtr ι) : Prop where
  source : p.pc.source = none
  agrees : ∀ q, p.Agrees q
  sound : p.Sound

theorem plain_andThen : (p.andThen after).Plain := by
  cases after <;> exact ⟨rfl, fun _ => trivial, trivial⟩

theorem taken_andThen : (p.andThen after).pc.taken = after.taken := by
  cases after <;> rfl

theorem dead_andThen (hp : p.live = true) (h : (p.andThen after).live = false) :
    p.andThen after = .dead := by
  cases after with
  | done | take | reset => exact absurd (hp.symm.trans h) (by decide)
  | destroy => rfl

theorem plain_releaseThen : (p.releaseThen after).Plain := by
  rw [releaseThen]
  split
  · exact ⟨rfl, fun _ => trivial, trivial⟩
  · exact plain_andThen

theorem taken_releaseThen : (p.releaseThen after).pc.taken = after.taken := by
  rw [releaseThen]
  split
  · rfl
  · exact taken_andThen

theorem dead_releaseThen (hp : p.live = true) (h : (p.releaseThen after).live = false) :
    p.releaseThen after = .dead := by
  rw [releaseThen] at h ⊢
  split at h
  · exact absurd (hp.symm.trans h) (by decide)
  · rw [if_neg (by assumption)]
    exact dead_andThen hp h

theorem plain_copied (current : Option Nat) : (p.copied current).Plain := by
  cases current <;> exact ⟨rfl, fun _ => trivial, trivial⟩

theorem taken_copied (current : Option Nat) : (p.copied current).pc.taken = none := by
  cases current <;> rfl

theorem live_copied (current : Option Nat) : (p.copied current).live = p.live := by
  cases current <;> rfl

end SharedPoolPtr

namespace Pointers

variable {ι : Type} {N stateCount : Nat} (Guarded : ι → Prop)

/-- The operation on `p` relies on the object at `b`. -/
def Uses (p : SharedPoolPtr ι) (b : ι) : Prop :=
  p.pc.taken = some b ∨ p.pc.source = some b ∧ Guarded b

/-- No operation is in progress on the object at `a`, and none relies on it. -/
def Free (ptr : ι → SharedPoolPtr ι) (a : ι) : Prop :=
  (ptr a).pc = .idle ∧ ∀ x, ¬ Uses Guarded (ptr x) a

/-- The object at `b` may be copied from. -/
def Readable (ptr : ι → SharedPoolPtr ι) (b : ι) : Prop :=
  (ptr b).live = true ∧ (Guarded b → (ptr b).pc = .idle ∧ ∀ x, (ptr x).pc.taken ≠ some b)

/-- What the callers promise: an object is used by one operation at a time or, while it does not
change, copied from by several; constructors run where no object is, and everything else where one
is; and a slot is acquired for a state other than `0`, as `CreateSession` and `AcquirePacket` do. -/
def Legit (s : Pointers ι N stateCount) : Event ι → Prop
  | .null a => Free Guarded s.ptr a ∧ (s.ptr a).live = false
  | .acquire a state => Free Guarded s.ptr a ∧ (s.ptr a).live = false ∧ state ≠ 0
  | .copy a other =>
      Free Guarded s.ptr a ∧ (s.ptr a).live = false ∧ Readable Guarded s.ptr other
  | .copyAssign a other =>
      Free Guarded s.ptr a ∧ (s.ptr a).live = true ∧ Readable Guarded s.ptr other
  | .move a other =>
      Free Guarded s.ptr a ∧ (s.ptr a).live = false ∧
        Free Guarded s.ptr other ∧ (s.ptr other).live = true
  | .moveAssign a other =>
      Free Guarded s.ptr a ∧ (s.ptr a).live = true ∧
        Free Guarded s.ptr other ∧ (s.ptr other).live = true
  | .reset a | .destroy a => Free Guarded s.ptr a ∧ (s.ptr a).live = true
  | .run a => (s.ptr a).pc ≠ .idle ∧ ((s.ptr a).pc.Locks → s.lock = none)

section

variable [Fintype ι] [DecidableEq ι] [DecidablePred Guarded]

instance (p : SharedPoolPtr ι) (b : ι) : Decidable (Uses Guarded p b) :=
  inferInstanceAs (Decidable (_ ∨ _ ∧ _))

instance (ptr : ι → SharedPoolPtr ι) (a : ι) : Decidable (Free Guarded ptr a) :=
  inferInstanceAs (Decidable (_ ∧ ∀ x, ¬ Uses Guarded (ptr x) a))

instance (ptr : ι → SharedPoolPtr ι) (b : ι) : Decidable (Readable Guarded ptr b) :=
  inferInstanceAs (Decidable (_ ∧ (Guarded b → _ ∧ ∀ x, (ptr x).pc.taken ≠ some b)))

instance : (pc : Pc ι) → Decidable pc.Locks
  | .acquire _ | .push _ _ => isTrue trivial
  | .idle | .init _ | .construct _ | .copyPool _ _ | .copyHandle _ _ | .addRef _ _ | .release _ _
  | .takePool _ | .takeHandle _ | .leavePool _ | .leaveHandle _ | .clearPool | .clearHandle =>
      isFalse id

instance (s : Pointers ι N stateCount) : (e : Event ι) → Decidable (Legit Guarded s e)
  | .null _ | .reset _ | .destroy _ => inferInstanceAs (Decidable (_ ∧ _))
  | .acquire _ _ | .copy _ _ | .copyAssign _ _ => inferInstanceAs (Decidable (_ ∧ _ ∧ _))
  | .move _ _ | .moveAssign _ _ => inferInstanceAs (Decidable (_ ∧ _ ∧ _ ∧ _))
  | .run _ => inferInstanceAs (Decidable (_ ∧ (_ → _)))

end

/-- **What the operations in progress rely on.** -/
structure Shape (lock : Option ι) (ptr : ι → SharedPoolPtr ι) : Prop where
  lock : ∀ a, lock = some a → ∃ h, (ptr a).pc = .init h
  dead : ∀ a, (ptr a).live = false → ptr a = .dead
  sound : ∀ a, (ptr a).Sound
  uses : ∀ a b, Uses Guarded (ptr a) b → b ≠ a ∧ (ptr b).pc = .idle ∧ (ptr a).Agrees (ptr b)
  sole : ∀ a b c, (ptr a).pc.taken = some b → Uses Guarded (ptr c) b → c = a

variable {Guarded} {lock lock' : Option ι} {ptr : ι → SharedPoolPtr ι}

theorem addRef_eq {s : Pointers ι N stateCount} {h : Nat} (hw : slotIndex h < N) :
    s.addRef h = some { s with
      refCount := upd s.refCount (slotIndex h) (u64 (s.refCount (slotIndex h) + 1)) } := by
  simp only [addRef, rd_of_lt hw, wr_of_lt hw, Option.bind_eq_bind, Option.bind_some]
  rfl

/-- An operation in progress is relied on by none. -/
theorem Shape.unused (hs : Shape Guarded lock ptr) {a : ι} (ha : (ptr a).pc ≠ .idle) (x : ι) :
    ¬ Uses Guarded (ptr x) a :=
  fun h => ha (hs.uses x a h).2.1

theorem Shape.live (hs : Shape Guarded lock ptr) {a : ι} (ha : (ptr a).pc ≠ .idle) :
    (ptr a).live = true := by
  by_contra h
  rw [hs.dead a (Bool.eq_false_iff.mpr h)] at ha
  exact ha rfl

/-- Objects with no operation in progress. -/
theorem Shape.idle (hptr : ∀ a, ptr a = .dead ∨ ptr a = .null) : Shape Guarded none ptr := by
  have hidle : ∀ a, (ptr a).pc = .idle := by
    intro a
    rcases hptr a with h | h <;> rw [h] <;> rfl
  refine ⟨fun a h => ?_, fun a h => ?_, fun a => ?_, fun a b h => ?_, fun a b c h _ => ?_⟩
  · cases h
  · rcases hptr a with e | e
    · exact e
    · rw [e] at h
      cases h
  · rw [SharedPoolPtr.Sound, hidle]
    trivial
  · rw [Uses, hidle] at h
    rcases h with h | ⟨h, -⟩ <;> cases h
  · rw [hidle] at h
    cases h

/-- A dead object stands for no reference. -/
theorem Shape.own_dead (hs : Shape Guarded lock ptr) {a : ι} (h : (ptr a).live = false) :
    (ptr a).own = 0 := by
  rw [hs.dead a h]
  rfl

theorem Free.held {a : ι} (hfree : Free Guarded ptr a) : (ptr a).held = (ptr a).own :=
  SharedPoolPtr.held_idle hfree.1

variable [DecidableEq ι]

theorem put_other {s : Pointers ι N stateCount} {a b : ι} (h : a ≠ b) (q : SharedPoolPtr ι) :
    (s.put b q).ptr a = s.ptr a := by
  show Function.update s.ptr b q a = s.ptr a
  rw [Function.update_of_ne h]

/-- The object at `a` changes, which no operation relies on. -/
theorem Shape.update (hs : Shape Guarded lock ptr) {a : ι} {p : SharedPoolPtr ι}
    (hfree : ∀ x, ¬ Uses Guarded (ptr x) a)
    (hlock : ∀ x, lock' = some x → (x = a ∧ ∃ h, p.pc = .init h) ∨ x ≠ a ∧ lock = some x)
    (hdead : p.live = false → p = .dead) (hsound : p.Sound)
    (huses : ∀ b, Uses Guarded p b → b ≠ a ∧ (ptr b).pc = .idle ∧ p.Agrees (ptr b))
    (hsole : ∀ b c, c ≠ a → (p.pc.taken = some b → ¬ Uses Guarded (ptr c) b) ∧
      (Uses Guarded p b → (ptr c).pc.taken ≠ some b)) :
    Shape Guarded lock' (Function.update ptr a p) := by
  have hself : Function.update ptr a p a = p := Function.update_self a p ptr
  have hother : ∀ x, x ≠ a → Function.update ptr a p x = ptr x := fun x hx =>
    Function.update_of_ne hx p ptr
  refine ⟨fun x hx => ?_, fun x hx => ?_, fun x => ?_, fun x b hx => ?_, fun x b c hx hc => ?_⟩
  · rcases hlock x hx with ⟨rfl, hp⟩ | ⟨hne, hx⟩
    · rwa [hself]
    · rw [hother x hne]
      exact hs.lock x hx
  · by_cases e : x = a
    · rw [e, hself] at hx ⊢
      exact hdead hx
    · rw [hother x e] at hx ⊢
      exact hs.dead x hx
  · by_cases e : x = a
    · rw [e, hself]
      exact hsound
    · rw [hother x e]
      exact hs.sound x
  · by_cases e : x = a
    · rw [e, hself] at hx ⊢
      obtain ⟨hne, hidle, hag⟩ := huses b hx
      rw [hother b hne]
      exact ⟨hne, hidle, hag⟩
    · rw [hother x e] at hx ⊢
      have hb : b ≠ a := fun h => hfree x (h ▸ hx)
      rw [hother b hb]
      exact hs.uses x b hx
  · by_cases e : x = a
    · rw [e, hself] at hx
      by_contra hca
      have hca' : c ≠ a := fun h => hca (h.trans e.symm)
      rw [hother c hca'] at hc
      exact (hsole b c hca').1 hx hc
    · rw [hother x e] at hx
      by_cases ec : c = a
      · rw [ec, hself] at hc
        exact absurd hx ((hsole b x e).2 hc)
      · rw [hother c ec] at hc
        exact hs.sole x b c hx hc

/-- An operation is started on the object at `a`. -/
theorem Shape.start (hs : Shape Guarded lock ptr) {a : ι} {p : SharedPoolPtr ι}
    (hfree : Free Guarded ptr a) (hdead : p.live = false → p = .dead)
    (hsound : p.Sound)
    (huses : ∀ b, Uses Guarded p b → b ≠ a ∧ (ptr b).pc = .idle ∧ p.Agrees (ptr b))
    (hsole : ∀ b c, (p.pc.taken = some b → ¬ Uses Guarded (ptr c) b) ∧
      (Uses Guarded p b → (ptr c).pc.taken ≠ some b)) :
    Shape Guarded lock (Function.update ptr a p) := by
  refine hs.update hfree.2 (fun x hx => .inr ⟨?_, hx⟩) hdead hsound huses fun b c _ => hsole b c
  rintro rfl
  obtain ⟨h, hh⟩ := hs.lock x hx
  rw [hfree.1] at hh
  cases hh

/-- The operation in progress on the object at `a` goes on, relying on nothing new. -/
theorem Shape.advance (hs : Shape Guarded lock ptr) {a : ι} {p : SharedPoolPtr ι}
    (ha : (ptr a).pc ≠ .idle)
    (hlock : ∀ x, lock' = some x → (x = a ∧ ∃ h, p.pc = .init h) ∨ x ≠ a ∧ lock = some x)
    (hdead : p.live = false → p = .dead) (hsound : p.Sound)
    (htaken : ∀ b, p.pc.taken = some b → (ptr a).pc.taken = some b ∧ p.Agrees (ptr b))
    (hsource : ∀ b, p.pc.source = some b → Guarded b →
      (ptr a).pc.source = some b ∧ p.Agrees (ptr b)) :
    Shape Guarded lock' (Function.update ptr a p) := by
  have hsub : ∀ b, Uses Guarded p b → Uses Guarded (ptr a) b ∧ p.Agrees (ptr b) := by
    rintro b (hb | ⟨hb, hg⟩)
    · exact ⟨.inl (htaken b hb).1, (htaken b hb).2⟩
    · exact ⟨.inr ⟨(hsource b hb hg).1, hg⟩, (hsource b hb hg).2⟩
  refine hs.update (hs.unused ha) hlock hdead hsound (fun b hb => ?_)
    fun b c hc => ⟨fun hb hu => ?_, fun hb hu => ?_⟩
  · obtain ⟨hu, hag⟩ := hsub b hb
    obtain ⟨hne, hidle, -⟩ := hs.uses a b hu
    exact ⟨hne, hidle, hag⟩
  · exact hc (hs.sole a b c (htaken b hb).1 hu)
  · exact hc (hs.sole c b a hu (hsub b hb).1).symm

/-- The operation in progress goes on after its reads. -/
theorem Shape.resume (hs : Shape Guarded lock ptr) {a : ι} {p : SharedPoolPtr ι}
    (ha : (ptr a).pc ≠ .idle) (hinit : ∀ h, (ptr a).pc ≠ .init h) (hp : p.Plain)
    (htaken : p.pc.taken = none ∨ p.pc.taken = (ptr a).pc.taken)
    (hdead : p.live = false → p = .dead) : Shape Guarded lock (Function.update ptr a p) := by
  refine hs.advance ha (fun x hx => .inr ⟨?_, hx⟩) hdead hp.sound (fun b hb => ⟨?_, hp.agrees _⟩)
    fun b hb _ => ?_
  · rintro rfl
    obtain ⟨h, hh⟩ := hs.lock x hx
    exact hinit h hh
  · rcases htaken with e | e
    · rw [e] at hb
      cases hb
    · rw [← e, hb]
  · rw [hp.source] at hb
    cases hb

/-- The operation on the object at `a` changes the object at `b`, from which it moves. -/
theorem Shape.hand (hs : Shape Guarded lock ptr) {a b : ι} {p q : SharedPoolPtr ι}
    (hab : (ptr a).pc.taken = some b) (hlock : ∀ h, (ptr a).pc ≠ .init h) (hp : p.live = false → p = .dead)
    (hsound : p.Sound) (hq : q.live = false → q = .dead) (hidle : q.pc = .idle)
    (htaken : ∀ c, p.pc.taken = some c → c = b ∧ p.Agrees q) (hsource : p.pc.source = none) :
    Shape Guarded lock (Function.update (Function.update ptr b q) a p) := by
  obtain ⟨hne, hb, -⟩ := hs.uses a b (.inl hab)
  have ha : (ptr a).pc ≠ .idle := by
    intro h
    rw [h] at hab
    cases hab
  have hself : Function.update (Function.update ptr b q) a p a = p :=
    Function.update_self a p (Function.update ptr b q)
  have hhand : Function.update (Function.update ptr b q) a p b = q := by
    rw [Function.update_of_ne hne, Function.update_self]
  have hother : ∀ x, x ≠ a → x ≠ b → Function.update (Function.update ptr b q) a p x = ptr x := by
    intro x hxa hxb
    rw [Function.update_of_ne hxa, Function.update_of_ne hxb]
  -- the operations in progress are those before
  have hpc : ∀ x, x ≠ a → (Function.update (Function.update ptr b q) a p x).pc = (ptr x).pc := by
    intro x hxa
    by_cases e : x = b
    · rw [e, hhand, hidle, hb]
    · rw [hother x hxa e]
  have huses : ∀ x c, x ≠ a → Uses Guarded (Function.update (Function.update ptr b q) a p x) c →
      x ≠ b ∧ Uses Guarded (ptr x) c ∧ c ≠ a ∧ c ≠ b := by
    intro x c hxa hu
    rw [Uses, hpc x hxa] at hu
    refine ⟨?_, hu, fun e => hs.unused ha x (e ▸ hu), fun e => hxa (hs.sole a b x hab (e ▸ hu))⟩
    rintro rfl
    rw [hb] at hu
    rcases hu with hu | ⟨hu, -⟩ <;> cases hu
  have hown : ∀ c, Uses Guarded p c → p.pc.taken = some c := by
    rintro c (hc | ⟨hc, -⟩)
    · exact hc
    · rw [hsource] at hc
      cases hc
  refine ⟨fun x hx => ?_, fun x hx => ?_, fun x => ?_, fun x c hx => ?_, fun x c d hx hd => ?_⟩
  · obtain ⟨h, hh⟩ := hs.lock x hx
    have hxa : x ≠ a := fun e => hlock h (e ▸ hh)
    exact ⟨h, (hpc x hxa).trans hh⟩
  · by_cases e : x = a
    · rw [e, hself] at hx ⊢
      exact hp hx
    · by_cases e' : x = b
      · rw [e', hhand] at hx ⊢
        exact hq hx
      · rw [hother x e e'] at hx ⊢
        exact hs.dead x hx
  · by_cases e : x = a
    · rw [e, hself]
      exact hsound
    · by_cases e' : x = b
      · rw [e', hhand, SharedPoolPtr.Sound, hidle]
        trivial
      · rw [hother x e e']
        exact hs.sound x
  · by_cases e : x = a
    · rw [e, hself] at hx ⊢
      obtain ⟨rfl, hag⟩ := htaken c (hown c hx)
      rw [hhand]
      exact ⟨hne, hidle, hag⟩
    · obtain ⟨hxb, hu, hca, hcb⟩ := huses x c e hx
      rw [hother x e hxb, hother c hca hcb]
      exact hs.uses x c hu
  · by_cases e : x = a
    · rw [e, hself] at hx
      obtain ⟨rfl, -⟩ := htaken c hx
      by_contra hda
      exact (huses d c (fun h => hda (h.trans e.symm)) hd).2.2.2 rfl
    · obtain ⟨hxb, hu, -, hcb⟩ := huses x c e (.inl hx)
      rw [hpc x e] at hx
      by_cases e' : d = a
      · rw [e', hself] at hd
        exact absurd (htaken c (hown c hd)).1 hcb
      · exact hs.sole x c d hx (huses d c e' hd).2.1

end Pointers

end IocpServer
