import IocpServer.Common.Protocol
import IocpServer.Pool.Counts

/-!
# Pool — Reentrant

The post-release callback: `ReleaseRef` calls it when it has pushed the slot, and it may start any
operation on any pointer, which may release slots and call it again.  The operations that wait for
it to return are a stack.

* `run_withPcs`, `step_withPcs`: an operation does not see which others are in progress.
* `Tidy.step`: as long as no operation in progress is disturbed, each step is one that `Pointers`
  allows; an operation that waits relies on nothing yet.
* `reentrant_exact`: so every count stays right.
* `reassigned_leaks`: `Reset` of a pointer that the callback assigns to.
-/

namespace IocpServer

/-- Where an operation waits for the callback. -/
def Pc.Waits {ι : Type} : Pc ι → Prop
  | .takePool _ | .clearPool => True
  | _ => False

/-- An operation that waits holds nothing. -/
theorem Pc.Waits.plain {ι : Type} {p : SharedPoolPtr ι} (h : p.pc.Waits) :
    p.held = 0 ∧ p.kept = 0 ∧ p.Plain := by
  obtain ⟨live, pool, handle, pc⟩ := p
  cases pc with
  | takePool | clearPool => exact ⟨rfl, rfl, rfl, fun _ => trivial, trivial⟩
  | _ => cases h

namespace Pointers

variable {ι : Type} {N stateCount : Nat}

/-- The objects, with the operations `f` in progress on them. -/
def withPcs (s : Pointers ι N stateCount) (f : ι → Pc ι) : Pointers ι N stateCount :=
  { s with ptr := fun a => { s.ptr a with pc := f a } }

/-- The object on which an operation is started or goes on. -/
def Event.object : Event ι → ι
  | .null a | .acquire a _ | .copy a _ | .copyAssign a _ | .move a _ | .moveAssign a _ | .reset a
  | .destroy a | .run a => a

/-- Whether an operation is started. -/
def Event.starts : Event ι → Bool
  | .run _ => false
  | _ => true

variable [DecidableEq ι]

@[simp] theorem put_self (s : Pointers ι N stateCount) (a : ι) (p : SharedPoolPtr ι) :
    (s.put a p).ptr a = p := by
  show Function.update s.ptr a p a = p
  rw [Function.update_self]

theorem withPcs_put (s : Pointers ι N stateCount) (f : ι → Pc ι) (a : ι) (p : SharedPoolPtr ι) :
    (s.put a p).withPcs (Function.update f a p.pc) = (s.withPcs f).put a p := by
  simp only [withPcs, put, mk.injEq, true_and, and_true]
  funext x
  by_cases e : x = a
  · subst e
    simp only [Function.update_self]
  · simp only [Function.update_of_ne e]

/-- An operation that is started does not see the others. -/
theorem step_withPcs {s : Pointers ι N stateCount} {f : ι → Pc ι} {e : Event ι}
    (hs : (s.ptr e.object).pc = .idle) (hf : f e.object = .idle) (he : e.starts = true) :
    (s.withPcs f).step e =
      (s.step e).map fun t => t.withPcs (Function.update f e.object (t.ptr e.object).pc) := by
  have hself : (s.withPcs f).ptr e.object = s.ptr e.object := by
    show { s.ptr e.object with pc := f e.object } = _
    rw [hf, ← hs]
  have hsame : s.withPcs (Function.update f e.object (s.ptr e.object).pc) = s.withPcs f := by
    rw [hs, ← hf, Function.update_eq_self]
  cases e with
  | run a => cases he
  | null a | acquire a state | copy a other | move a other =>
      simp only [step, Option.map_some, Event.object, put_self, withPcs_put]
  | copyAssign a other =>
      simp only [step, Option.map_some, Event.object] at hself hsame ⊢
      split
      · rw [hsame]
      · rw [put_self, withPcs_put, hself]
  | moveAssign a other =>
      simp only [step, Option.map_some, Event.object] at hself hsame ⊢
      split
      · rw [hsame]
      · rw [put_self, withPcs_put, hself]
  | reset a | destroy a =>
      simp only [step, Option.map_some, Event.object] at hself hsame ⊢
      rw [put_self, withPcs_put, hself]

/-- The operation on `a` is taken up at `pc`. -/
def load (s : Pointers ι N stateCount) (a : ι) (pc : Pc ι) : Pointers ι N stateCount :=
  s.put a { s.ptr a with pc }

/-- The objects after a step at `a`, with the other operations. -/
theorem ptr_withPcs (g : ι → SharedPoolPtr ι) (f : ι → Pc ι) (a : ι) (q p : SharedPoolPtr ι) :
    (fun x => { Function.update (Function.update g a q) a p x with
      pc := Function.update f a p.pc x }) =
      Function.update (fun x => { g x with pc := f x }) a p := by
  funext x
  by_cases e : x = a
  · subst e
    simp only [Function.update_self]
  · simp only [Function.update_of_ne e]

theorem load_same {s : Pointers ι N stateCount} {a : ι} {pc : Pc ι} (h : (s.ptr a).pc = pc) :
    s.load a pc = s := by
  subst h
  exact congrArg (fun ptr => { s with ptr }) (Function.update_eq_self a s.ptr)

theorem withPcs_load (s : Pointers ι N stateCount) (f : ι → Pc ι) (a : ι) (pc : Pc ι) :
    (s.load a pc).withPcs f = s.withPcs f := by
  refine congrArg (fun ptr => { s with ptr }) ?_
  funext x
  by_cases e : x = a
  · subst e
    simp only [load, put, Function.update_self]
  · simp only [load, put, Function.update_of_ne e]

theorem load_withPcs (s : Pointers ι N stateCount) (f : ι → Pc ι) (a : ι) (pc pc' : Pc ι) :
    (s.withPcs (Function.update f a pc)).load a pc' = s.withPcs (Function.update f a pc') := by
  refine congrArg (fun ptr => { s with ptr }) ?_
  funext x
  by_cases e : x = a
  · subst e
    simp only [withPcs, Function.update_self]
  · simp only [withPcs, Function.update_of_ne e]

theorem load_pool (s : Pointers ι N stateCount) (a : ι) (pc : Pc ι) (x : ι) :
    ((s.load a pc).ptr x).pool = (s.ptr x).pool ∧ ((s.load a pc).ptr x).handle = (s.ptr x).handle := by
  by_cases e : x = a
  · subst e
    rw [load, put_self]
    exact ⟨rfl, rfl⟩
  · rw [load, put_other e]
    exact ⟨rfl, rfl⟩

/-- An operation in progress does not see the others. -/
theorem run_withPcs (s : Pointers ι N stateCount) (f : ι → Pc ι) (a : ι) :
    (s.withPcs f).run a = ((s.load a (f a)).run a).map fun t =>
      t.withPcs (Function.update f a (t.ptr a).pc) := by
  have hpool : ∀ x, (Function.update s.ptr a { s.ptr a with pc := f a } x).pool = (s.ptr x).pool :=
    fun x => (s.load_pool a (f a) x).1
  have hhandle : ∀ x, (Function.update s.ptr a { s.ptr a with pc := f a } x).handle = (s.ptr x).handle :=
    fun x => (s.load_pool a (f a) x).2
  cases hpc : f a with
  | idle => simp only [run, withPcs, load, put, Function.update_self, hpc, Option.map_none]
  | acquire state =>
    rw [hpc] at hpool hhandle
    simp only [run, withPcs, load, put, Function.update_self, hpc]
    cases s.set.pop state with
    | none => rfl
    | some r =>
      simp only [Option.bind_eq_bind, Option.bind_some]
      split
      · simp only [Option.pure_def, Option.map_some, Function.update_self, ptr_withPcs]
      · simp only [Option.pure_def, Option.map_some, Function.update_self, ptr_withPcs]
  | init handle =>
    simp only [run, withPcs, load, put, Function.update_self, hpc]
    cases wr N s.refCount (slotIndex handle) 0 with
    | none => rfl
    | some refCount =>
      simp only [Option.bind_eq_bind, Option.bind_some, Option.pure_def, Option.map_some,
        Function.update_self, ptr_withPcs]
  | construct handle =>
    simp only [run, addRef, withPcs, load, put, Function.update_self, hpc]
    cases rd N s.refCount (slotIndex handle) with
    | none => rfl
    | some count =>
      simp only [Option.bind_eq_bind, Option.bind_some]
      cases wr N s.refCount (slotIndex handle) (u64 (count + 1)) with
      | none => rfl
      | some refCount =>
        simp only [Option.bind_some, Option.pure_def, Option.map_some, Function.update_self, ptr_withPcs]
  | addRef other current =>
    simp only [run, addRef, withPcs, load, put, Function.update_self, hpc]
    split
    · cases rd N s.refCount (slotIndex (s.ptr a).handle) with
      | none => rfl
      | some count =>
        simp only [Option.bind_eq_bind, Option.bind_some]
        cases wr N s.refCount (slotIndex (s.ptr a).handle) (u64 (count + 1)) with
        | none => rfl
        | some refCount =>
          simp only [Option.bind_some, Option.pure_def, Option.map_some, Function.update_self, ptr_withPcs]
    · simp only [Option.bind_eq_bind, Option.bind_some, Option.pure_def, Option.map_some,
        Function.update_self, ptr_withPcs]
  | release handle after =>
    simp only [run, withPcs, load, put, Function.update_self, hpc]
    cases rd N s.refCount (slotIndex handle) with
    | none => rfl
    | some count =>
      simp only [Option.bind_eq_bind, Option.bind_some]
      cases wr N s.refCount (slotIndex handle) (sub64 count 1) with
      | none => rfl
      | some refCount =>
        simp only [Option.bind_some, Option.pure_def, Option.map_some, Function.update_self, ptr_withPcs]
  | push handle after =>
    simp only [run, withPcs, load, put, Function.update_self, hpc]
    cases s.set.push handle with
    | none => rfl
    | some set =>
      simp only [Option.bind_eq_bind, Option.bind_some, Option.pure_def, Option.map_some,
        Function.update_self, ptr_withPcs]
  | leavePool other | leaveHandle other =>
    simp only [run, withPcs, load, put, Function.update_self, hpc, Option.map_some, Option.some.injEq,
      mk.injEq, true_and, and_true]
    funext x
    by_cases e : x = a
    · subst e
      simp only [Function.update_self]
    · by_cases eo : x = other
      · subst eo
        simp only [Function.update_of_ne e, Function.update_self]
      · simp only [Function.update_of_ne e, Function.update_of_ne eo]
  | _ =>
    rw [hpc] at hpool hhandle
    simp only [run, withPcs, load, put, Function.update_self, hpc, Option.map_some, ptr_withPcs, hpool,
      hhandle]

/-- An operation that waits may have its object, and what it moves from, fixed or not. -/
theorem Good.load [Fintype ι] {s : Pointers ι N stateCount} (hg : Good s) {a : ι} {pc : Pc ι}
    (hfrom : (s.ptr a).pc.Waits) (hto : pc.Waits)
    (htaken : ∀ b, pc.taken = some b → b ≠ a ∧ (s.ptr b).pc = .idle ∧ ∀ x ≠ a, ¬ Uses All (s.ptr x) b) :
    Good (s.load a pc) := by
  obtain ⟨hheld, hkept, -⟩ := hfrom.plain
  obtain ⟨hheld', hkept', hplain⟩ := Pc.Waits.plain (p := { s.ptr a with pc }) hto
  have ha : (s.ptr a).pc ≠ .idle := by
    intro e
    rw [e] at hfrom
    exact hfrom
  have hrefs : (s.load a pc).refs = s.refs :=
    refs_put (hheld'.trans hheld.symm) (hkept'.trans hkept.symm)
  have huses : ∀ b, Uses All { s.ptr a with pc } b → pc.taken = some b := by
    rintro b (hb | ⟨hb, -⟩)
    · exact hb
    · rw [hplain.source] at hb
      cases hb
  refine ⟨?_, hrefs ▸ hg.exact, hrefs ▸ hg.current⟩
  refine hg.shape.update (hg.shape.unused ha) (fun x hx => .inr ⟨?_, hx⟩) (fun h => ?_) hplain.sound
    (fun b hb => ?_) fun b c hc => ⟨fun hb => (htaken b hb).2.2 c hc, fun hb hc' => ?_⟩
  · rintro rfl
    obtain ⟨h, hh⟩ := hg.shape.lock x hx
    rw [hh] at hfrom
    exact hfrom
  · exact absurd h (by rw [hg.shape.live ha]; decide)
  · obtain ⟨hne, hidle, -⟩ := htaken b (huses b hb)
    exact ⟨hne, hidle, hplain.agrees _⟩
  · exact (htaken b (huses b hb)).2.2 c hc (.inl hc')

end Pointers

/-! ### The stack -/

/-- What waits for the innermost operation: an operation, at its next step, or the callback. -/
inductive Frame (ι : Type) where
  | op (a : ι) (pc : Pc ι)
  | callback
  deriving DecidableEq

/-- It works on the object at `a`. -/
def Frame.on {ι : Type} [DecidableEq ι] (a : ι) : Frame ι → Bool
  | .op b _ => b = a
  | .callback => false

/-- It works on the object at `a`, or will move from it. -/
def Frame.refers {ι : Type} [DecidableEq ι] (a : ι) : Frame ι → Bool
  | .op b pc => b = a || pc.taken = some a
  | .callback => false

/-- The operation is about to push a slot. -/
def Pc.pushes {ι : Type} : Pc ι → Bool
  | .push _ _ => true
  | _ => false

/-- The pool and the pointers, and the operations in progress, the innermost first.  Those of `mem`
are at no step of their own. -/
structure Reentrant (ι : Type) (N stateCount : Nat) where
  mem : Pointers ι N stateCount
  stack : List (Frame ι)

namespace Reentrant

variable {ι : Type} {N stateCount : Nat}

/-- A new pool, and no pointer. -/
def start (ι : Type) (N stateCount : Nat) : Reentrant ι N stateCount :=
  ⟨.start ι N stateCount, []⟩

inductive Event (ι : Type) where
  /-- An operation is called: by the callback, or outside any other. -/
  | call (e : Pointers.Event ι)
  /-- The innermost operation goes on. -/
  | run
  /-- The callback returns. -/
  | ret

variable [DecidableEq ι]

/-- The operation on the object at `a` stops before its next step, if it has one. -/
def stop (mem : Pointers ι N stateCount) (a : ι) (rest : List (Frame ι)) :
    Reentrant ι N stateCount where
  mem := mem.load a .idle
  stack := if (mem.ptr a).pc = .idle then rest else .op a (mem.ptr a).pc :: rest

def step (s : Reentrant ι N stateCount) : Event ι → Option (Reentrant ι N stateCount)
  | .call e =>
      match s.stack with
      | .op _ _ :: _ => none
      | stack =>
        if e.starts then do
          let mem ← s.mem.step e
          return stop mem e.object stack
        else none
  | .run =>
      match s.stack with
      | .op a pc :: rest => do
        let mem ← (s.mem.load a pc).run a
        let t := stop mem a rest
        return if pc.pushes then { t with stack := .callback :: t.stack } else t
      | _ => none
  | .ret =>
      match s.stack with
      | .callback :: rest => some { s with stack := rest }
      | _ => none

/-- The objects that an operation accesses. -/
def objects : Pointers.Event ι → List ι
  | .null a | .acquire a _ | .reset a | .destroy a | .run a => [a]
  | .copy a other | .move a other => [a, other]
  | .copyAssign a other | .moveAssign a other => if a = other then [] else [a, other]

/-- Constructors run where no object is, and everything else where one is; and an object is
destroyed when no operation has it any more. -/
def Proper (s : Reentrant ι N stateCount) : Event ι → Prop
  | .call (.null a) => (s.mem.ptr a).live = false
  | .call (.acquire a state) => (s.mem.ptr a).live = false ∧ state ≠ 0
  | .call (.copy a other) | .call (.move a other) =>
      (s.mem.ptr a).live = false ∧ (s.mem.ptr other).live = true
  | .call (.copyAssign a other) | .call (.moveAssign a other) =>
      (s.mem.ptr a).live = true ∧ (s.mem.ptr other).live = true
  | .call (.reset a) => (s.mem.ptr a).live = true
  | .call (.destroy a) => (s.mem.ptr a).live = true ∧ ∀ f ∈ s.stack, f.refers a = false
  | .call (.run _) | .run | .ret => True

/-- The callback lets the objects be that the operations waiting for it still work on. -/
def Undisturbed (s : Reentrant ι N stateCount) : Event ι → Prop
  | .call e => ∀ a ∈ objects e, ∀ f ∈ s.stack, f.on a = false
  | .run | .ret => True

instance (s : Reentrant ι N stateCount) : DecidablePred s.Proper
  | .call (.null _) | .call (.reset _) => inferInstanceAs (Decidable (_ = _))
  | .call (.destroy a) => inferInstanceAs (Decidable (_ ∧ ∀ f ∈ s.stack, f.refers a = false))
  | .call (.acquire ..) | .call (.copy ..) | .call (.move ..) | .call (.copyAssign ..)
  | .call (.moveAssign ..) => inferInstanceAs (Decidable (_ ∧ _))
  | .call (.run _) | .run | .ret => .isTrue trivial

instance (s : Reentrant ι N stateCount) : DecidablePred s.Undisturbed
  | .call e => inferInstanceAs (Decidable (∀ a ∈ objects e, ∀ f ∈ s.stack, f.on a = false))
  | .run | .ret => .isTrue trivial

/-! ### Nesting as an order -/

/-- The operations that wait for the callback.  Each is seen as one that clears its object next:
what it moves from may still change. -/
def under : List (Frame ι) → ι → Pc ι
  | [], _ => .idle
  | .op b _ :: rest, a => if a = b then .clearPool else under rest a
  | .callback :: rest, a => under rest a

/-- What the operations in progress on each object are about to do. -/
def pcAt : List (Frame ι) → ι → Pc ι
  | .op b pc :: rest, a => if a = b then pc else under rest a
  | stack, a => under stack a

/-- The same pool and pointers, with the operations on their objects. -/
def flat (s : Reentrant ι N stateCount) : Pointers ι N stateCount := s.mem.withPcs (pcAt s.stack)

/-- The callback runs, or nothing does. -/
def Open : List (Frame ι) → Prop
  | .op _ _ :: _ => False
  | _ => True

/-- The innermost operation may wait for the callback. -/
def Waiting : List (Frame ι) → Prop
  | .op _ pc :: _ => pc.Waits
  | _ => True

/-- Each operation has its object for itself, and does not move from one that is worked on. -/
def Nested : List (Frame ι) → Prop
  | [] => True
  | .op a pc :: rest =>
      pc ≠ .idle ∧ under rest a = .idle ∧ (∀ b, pc.taken = some b → b ≠ a ∧ under rest b = .idle) ∧
        Open rest ∧ Nested rest
  | .callback :: rest => Waiting rest ∧ Nested rest

variable {s s' : Reentrant ι N stateCount} {a : ι} {pc : Pc ι} {stack rest : List (Frame ι)}

theorem under_op (a : ι) (pc : Pc ι) (rest : List (Frame ι)) :
    under (.op a pc :: rest) = Function.update (under rest) a .clearPool := by
  funext x
  rw [under, Function.update_apply]

theorem pcAt_op (a : ι) (pc : Pc ι) (rest : List (Frame ι)) :
    pcAt (.op a pc :: rest) = Function.update (under rest) a pc := by
  funext x
  rw [pcAt, Function.update_apply]

theorem Open.pcAt (h : Open stack) : Reentrant.pcAt stack = under stack := by
  cases stack with
  | nil => rfl
  | cons f rest =>
      cases f with
      | op => exact h.elim
      | callback => rfl

theorem under_or (stack : List (Frame ι)) (a : ι) :
    under stack a = .idle ∨ under stack a = .clearPool := by
  induction stack with
  | nil => exact .inl rfl
  | cons f rest ih =>
      cases f with
      | callback => exact ih
      | op b pc =>
          rw [under]
          split
          · exact .inr rfl
          · exact ih

/-- An object that nobody works on. -/
theorem under_untouched (h : ∀ f ∈ stack, f.on a = false) : under stack a = .idle := by
  induction stack with
  | nil => rfl
  | cons f rest ih =>
      have hrest := ih fun f hf => h f (List.mem_cons_of_mem _ hf)
      cases f with
      | callback => exact hrest
      | op b pc =>
          have hne : ¬ a = b := fun e => of_decide_eq_false (h _ List.mem_cons_self) e.symm
          rw [under, if_neg hne]
          exact hrest

/-- An operation that waits relies on no object. -/
theorem not_uses_under {p : SharedPoolPtr ι} {x : ι} (hp : p.pc = under stack a) :
    ¬ Pointers.Uses Pointers.All p x := by
  rw [Pointers.Uses, hp]
  rcases under_or stack a with e | e <;> rw [e] <;> rintro (h | ⟨h, -⟩) <;> cases h

theorem stop_idle {mem : Pointers ι N stateCount} (h : (mem.ptr a).pc = .idle) :
    stop mem a rest = ⟨mem, rest⟩ := by
  rw [stop, if_pos h, Pointers.load_same h]

theorem flat_stop (mem : Pointers ι N stateCount) (ha : under rest a = .idle) (ho : Open rest) :
    (stop mem a rest).flat = mem.withPcs (Function.update (under rest) a (mem.ptr a).pc) := by
  have hstack : pcAt (stop mem a rest).stack = Function.update (under rest) a (mem.ptr a).pc := by
    simp only [stop]
    split
    · rename_i e
      rw [ho.pcAt, e, ← ha, Function.update_eq_self]
    · exact pcAt_op a _ rest
  rw [flat, hstack]
  exact Pointers.withPcs_load mem _ a .idle

/-- The invariant of a nesting that disturbs nothing. -/
structure Tidy [Fintype ι] (s : Reentrant ι N stateCount) : Prop where
  idle : ∀ a, (s.mem.ptr a).pc = .idle
  nested : Nested s.stack
  good : Pointers.Good s.flat

/-- Only the object it is called on has a new step to do. -/
theorem starts_pc {m m' : Pointers ι N stateCount} {e : Pointers.Event ι} (he : e.starts = true)
    (h : m.step e = some m') : ∀ b ≠ e.object, (m'.ptr b).pc = (m.ptr b).pc := by
  intro b hb
  cases e with
  | run a => cases he
  | copyAssign a other | moveAssign a other =>
    simp only [Pointers.step, Option.some.injEq] at h
    subst h
    split
    · rfl
    · exact congrArg _ (Pointers.put_other hb _)
  | _ =>
    cases h
    exact congrArg _ (Pointers.put_other hb _)

/-- An assignment of an object to itself does nothing. -/
theorem step_self {m : Pointers ι N stateCount} {e : Pointers.Event ι} (h : e.object ∉ objects e) :
    m.step e = some m := by
  cases e with
  | copyAssign a other | moveAssign a other =>
    have hself : a = other := by
      by_contra hne
      exact h (by rw [objects, if_neg hne]; exact List.mem_cons_self)
    rw [Pointers.step, if_pos hself]
  | _ => exact absurd List.mem_cons_self h

/-- What waits after a push. -/
theorem push_waits {m m' : Pointers ι N stateCount} {handle : Nat} {after : After ι}
    (hpc : (m.ptr a).pc = .push handle after) (h : m.run a = some m') :
    (m'.ptr a).pc = .idle ∨ ((m'.ptr a).pc).Waits := by
  simp only [Pointers.run, hpc] at h
  obtain ⟨set, -, h⟩ := Option.bind_eq_some_iff.mp h
  cases h
  simp only [Function.update_self]
  cases after with
  | done | destroy => exact .inl rfl
  | take | reset => exact .inr trivial

section

variable (ho : Open s.stack)

include ho

/-- An object that nobody works on is free for an operation. -/
theorem free_untouched (h : ∀ f ∈ s.stack, f.on a = false) :
    Pointers.Free Pointers.All s.flat.ptr a := by
  have hpc : ∀ x, (s.flat.ptr x).pc = under s.stack x := fun x => congrFun ho.pcAt x
  exact ⟨(hpc a).trans (under_untouched h), fun x => not_uses_under (hpc x)⟩

theorem readable_untouched (hlive : (s.mem.ptr a).live = true)
    (h : ∀ f ∈ s.stack, f.on a = false) : Pointers.Readable Pointers.All s.flat.ptr a := by
  obtain ⟨hidle, huses⟩ := free_untouched ho h
  exact ⟨hlive, fun _ => ⟨hidle, fun x hx => huses x (.inl hx)⟩⟩

/-- A call that disturbs nothing is one that `Pointers` allows. -/
theorem legit_call {e : Pointers.Event ι} (he : e.starts = true) (hmem : e.object ∈ objects e)
    (hp : s.Proper (.call e)) (hu : s.Undisturbed (.call e)) :
    Pointers.Legit Pointers.All s.flat e := by
  have hfree : ∀ x ∈ objects e, Pointers.Free Pointers.All s.flat.ptr x := fun x hx =>
    free_untouched ho (hu x hx)
  cases e with
  | run => cases he
  | null x | reset x => exact ⟨hfree x hmem, hp⟩
  | destroy x => exact ⟨hfree x hmem, hp.1⟩
  | acquire x state => exact ⟨hfree x hmem, hp⟩
  | copy x other =>
    exact ⟨hfree x hmem, hp.1, readable_untouched ho hp.2 (hu other (by simp [objects]))⟩
  | move x other => exact ⟨hfree x hmem, hp.1, hfree other (by simp [objects]), hp.2⟩
  | copyAssign x other =>
    have hother : other ∈ objects (.copyAssign x other) := by
      rw [objects] at hmem ⊢
      split <;> simp_all
    exact ⟨hfree x hmem, hp.1, readable_untouched ho hp.2 (hu other hother)⟩
  | moveAssign x other =>
    have hother : other ∈ objects (.moveAssign x other) := by
      rw [objects] at hmem ⊢
      split <;> simp_all
    exact ⟨hfree x hmem, hp.1, hfree other hother, hp.2⟩

end

/-- The operation stops in a nesting that disturbs nothing. -/
theorem nested_stop {mem : Pointers ι N stateCount} (ha : under rest a = .idle) (ho : Open rest)
    (hn : Nested rest)
    (hs : Pointers.Shape Pointers.All (stop mem a rest).flat.lock (stop mem a rest).flat.ptr) :
    Nested (stop mem a rest).stack := by
  have huses := hs.uses a
  simp only [flat_stop mem ha ho, Pointers.withPcs, Function.update_self] at huses
  simp only [stop]
  split
  · exact hn
  · rename_i e
    refine ⟨e, ha, fun b hb => ?_, ho, hn⟩
    obtain ⟨hne, hidle, -⟩ := huses b (.inl hb)
    rw [Function.update_of_ne hne] at hidle
    exact ⟨hne, hidle⟩

theorem waiting_stop {mem : Pointers ι N stateCount} (ho : Open rest)
    (h : (mem.ptr a).pc = .idle ∨ (mem.ptr a).pc.Waits) : Waiting (stop mem a rest).stack := by
  simp only [stop]
  split
  · cases rest with
    | nil => trivial
    | cons f rest =>
      cases f with
      | op => exact ho.elim
      | callback => trivial
  · rename_i hne
    exact h.resolve_left hne

theorem idle_stop {mem : Pointers ι N stateCount} (h : ∀ b ≠ a, (mem.ptr b).pc = .idle) :
    ∀ b, ((stop mem a rest).mem.ptr b).pc = .idle := by
  intro b
  by_cases e : b = a
  · subst e
    exact congrArg SharedPoolPtr.pc (Pointers.put_self mem b _)
  · exact (congrArg SharedPoolPtr.pc (Pointers.put_other e _)).trans (h b e)

variable [Fintype ι]

/-- The callback begins, or it has returned: what waits for it may rely on nothing, or on what it
will move from. -/
theorem good_callback {mem : Pointers ι N stateCount} (hw : Waiting stack) (hn : Nested stack) :
    Pointers.Good (flat ⟨mem, .callback :: stack⟩) ↔ Pointers.Good (flat ⟨mem, stack⟩) := by
  cases stack with
  | nil => exact Iff.rfl
  | cons f rest =>
    cases f with
    | callback => exact Iff.rfl
    | op a pc =>
      obtain ⟨-, ha, htaken, -, -⟩ := hn
      have hbegin : flat ⟨mem, .callback :: .op a pc :: rest⟩ =
          mem.withPcs (Function.update (under rest) a .clearPool) := congrArg mem.withPcs (under_op a pc rest)
      have hback : flat ⟨mem, .op a pc :: rest⟩ =
          mem.withPcs (Function.update (under rest) a pc) := congrArg mem.withPcs (pcAt_op a pc rest)
      rw [hbegin, hback]
      constructor
      · intro hg
        rw [← Pointers.load_withPcs mem _ a .clearPool pc]
        refine hg.load (by simp only [Pointers.withPcs, Function.update_self]; trivial) hw fun b hb => ?_
        obtain ⟨hne, hidle⟩ := htaken b hb
        refine ⟨hne, ?_, fun x hx => not_uses_under (a := x) (show _ = under rest x from ?_)⟩
        · simp only [Pointers.withPcs, Function.update_of_ne hne]
          exact hidle
        · simp only [Pointers.withPcs, Function.update_of_ne hx]
      · intro hg
        rw [← Pointers.load_withPcs mem _ a pc .clearPool]
        exact hg.load (by simp only [Pointers.withPcs, Function.update_self]; exact hw) trivial nofun

/-- The innermost operation may go on: nobody else holds the lock. -/
theorem Tidy.legit_run (ht : s.Tidy) (hs : s.stack = .op a pc :: rest) :
    Pointers.Legit Pointers.All s.flat (.run a) := by
  have hn := ht.nested
  rw [hs] at hn
  have hpc : (s.flat.ptr a).pc = pc := by
    show pcAt s.stack a = pc
    rw [hs, pcAt, if_pos rfl]
  refine ⟨hpc ▸ hn.1, fun hlocks => ?_⟩
  rw [hpc] at hlocks
  by_contra hlock
  obtain ⟨b, hb⟩ := Option.ne_none_iff_exists'.mp hlock
  obtain ⟨h, hinit⟩ := ht.good.shape.lock b hb
  have hinit' : pcAt s.stack b = .init h := hinit
  rw [hs, pcAt] at hinit'
  split at hinit'
  · subst hinit'
    exact hlocks
  · rcases under_or rest b with e | e
    · rw [e] at hinit'
      cases hinit'
    · rw [e] at hinit'
      cases hinit'

/-- **The invariant is kept.** -/
theorem Tidy.step (hN : N < 2 ^ 32) (hM : Fintype.card ι ≤ 2 ^ 60) (ht : s.Tidy) {e : Event ι}
    (hp : s.Proper e) (hu : s.Undisturbed e) (h : s.step e = some s') : s'.Tidy := by
  have hn := ht.nested
  cases e with
  | ret =>
    simp only [Reentrant.step] at h
    split at h
    · rename_i rest hs
      cases h
      rw [hs] at hn
      refine ⟨ht.idle, hn.2, (good_callback hn.1 hn.2).mp ?_⟩
      rw [← hs]
      exact ht.good
    · cases h
  | call e =>
    have ho : Open s.stack ∧ (if e.starts then do
          let mem ← s.mem.step e
          return stop mem e.object s.stack
        else none) = some s' := by
      cases hs : s.stack with
      | nil =>
        simp only [Reentrant.step, hs] at h
        exact ⟨trivial, h⟩
      | cons f rest =>
        cases f with
        | op b pc =>
          simp only [Reentrant.step, hs] at h
          cases h
        | callback =>
          simp only [Reentrant.step, hs] at h
          exact ⟨trivial, h⟩
    obtain ⟨ho, h⟩ := ho
    split at h
    · rename_i he
      obtain ⟨mem, hmem, h⟩ := Option.bind_eq_some_iff.mp h
      cases h
      by_cases hself : e.object ∈ objects e
      · have hobj : under s.stack e.object = .idle := under_untouched (hu e.object hself)
        have hstep : s.flat.step e = some (stop mem e.object s.stack).flat := by
          rw [flat_stop mem hobj ho, flat, ho.pcAt, Pointers.step_withPcs (ht.idle _) hobj he, hmem]
          rfl
        have hg := (ht.good.step hN hM (legit_call ho he hself hp hu) hstep).1
        refine ⟨idle_stop fun b hb => ?_, nested_stop hobj ho hn hg.shape, hg⟩
        exact (starts_pc he hmem b hb).trans (ht.idle b)
      · rw [step_self hself] at hmem
        cases hmem
        rw [stop_idle (ht.idle _)]
        exact ht
    · cases h
  | run =>
    simp only [Reentrant.step] at h
    split at h
    · rename_i a pc rest hs
      rw [hs] at hn
      obtain ⟨hpc, ha, -, ho, hn⟩ := hn
      obtain ⟨mem, hmem, h⟩ := Option.bind_eq_some_iff.mp h
      have hloaded : ((s.mem.load a pc).ptr a).pc = pc := congrArg SharedPoolPtr.pc (Pointers.put_self _ _ _)
      have hrun : s.flat.step (.run a) = some (stop mem a rest).flat := by
        rw [flat_stop mem ha ho, flat, hs, pcAt_op]
        show Pointers.run _ a = _
        rw [Pointers.run_withPcs, Function.update_self, hmem, Option.map_some, Function.update_idem]
      have hidle : ∀ b, ((stop mem a rest).mem.ptr b).pc = .idle := by
        refine idle_stop fun b hb => ((Pointers.run_left hmem).2 b hb).trans ?_
        exact (congrArg SharedPoolPtr.pc (Pointers.put_other hb _)).trans (ht.idle b)
      have hg := (ht.good.step hN hM (ht.legit_run hs) hrun).1
      have hnest := nested_stop ha ho hn hg.shape
      split at h
      · rename_i hpush
        cases h
        have hw : Waiting (stop mem a rest).stack := by
          refine waiting_stop ho ?_
          cases pc with
          | push handle after => exact push_waits hloaded hmem
          | _ => cases hpush
        exact ⟨hidle, ⟨hw, hnest⟩, (good_callback hw hnest).mpr hg⟩
      · cases h
        exact ⟨hidle, hnest, hg⟩
    · cases h

theorem start_tidy (hN : N < 2 ^ 32) (hK : 1 ≤ stateCount) : (start ι N stateCount).Tidy :=
  ⟨fun _ => rfl, trivial, Pointers.start_good hN hK⟩

/-- **The books.**  When no operation is at work, in the callback or outside: every count is that of
the pointers nobody works on, and the slots in use are those that they name.  At any time: every such
pointer is valid, and the innermost operation goes on. -/
structure Settled (s : Reentrant ι N stateCount) : Prop where
  count : Open s.stack → ∀ i < N,
    s.mem.refCount i = (Finset.univ.filter fun a => (s.flat.ptr a).names i = true).card
  busy : Open s.stack → ∀ i < N,
    ((s.mem.set.cells i).state ≠ 0 ↔ ∃ a, (s.flat.ptr a).names i = true)
  valid : ∀ a, (s.flat.ptr a).pc = .idle → (s.mem.ptr a).pool = true →
    s.mem.set.isValid (s.mem.ptr a).handle = true ∧
      ∃ state, s.mem.set.getState (s.mem.ptr a).handle = some state ∧ state ≠ 0
  goes : ∀ a pc rest, s.stack = .op a pc :: rest → ∃ s', s.step .run = some s'

omit [Fintype ι] in
/-- What waits has to do with no slot. -/
theorem quiet_open (ho : Open s.stack) (i : Nat) : Pointers.Quiet s.flat i := by
  intro a ha h hmem
  have hpc : (s.flat.ptr a).pc = under s.stack a := congrFun ho.pcAt a
  have hw : (s.flat.ptr a).pc.Waits := by
    rcases under_or s.stack a with e | e
    · exact absurd (hpc.trans e) ha
    · rw [hpc, e]
      trivial
  obtain ⟨hheld, hkept, -⟩ := hw.plain
  rw [hheld, hkept] at hmem
  exact absurd hmem (Multiset.notMem_zero h)

theorem Tidy.settled (hN : N < 2 ^ 32) (hM : Fintype.card ι ≤ 2 ^ 60) (ht : s.Tidy) : s.Settled := by
  have hc := ht.good.counts hN hM
  refine ⟨fun ho i hi => hc.count i hi (quiet_open ho i), fun ho i hi => hc.busy i hi (quiet_open ho i),
    hc.valid, fun a pc rest hs => ?_⟩
  obtain ⟨t, hrun⟩ := ht.good.progress hN (ht.legit_run hs)
  rw [flat, hs, pcAt_op] at hrun
  have hrun' := (Pointers.run_withPcs s.mem (Function.update (under rest) a pc) a).symm.trans hrun
  rw [Function.update_self] at hrun'
  obtain ⟨mem, hmem, -⟩ := Option.map_eq_some_iff.mp hrun'
  simp only [Reentrant.step, hs, hmem, Option.bind_eq_bind, Option.bind_some]
  exact ⟨_, rfl⟩

/-- **Release is re-entrant** as long as the callback lets the pointers be that are being worked
on. -/
theorem reentrant_exact (hN : N < 2 ^ 32) (hK : 1 ≤ stateCount) (hM : Fintype.card ι ≤ 2 ^ 60)
    {es : List (Event ι)}
    (r : Runs step (fun s e => s.Proper e ∧ s.Undisturbed e) (start ι N stateCount) es s) :
    s.Settled := by
  have ht : s.Tidy := r.invariant (start_tidy hN hK) fun _ _ _ ht hok h => ht.step hN hM hok.1 hok.2 h
  exact ht.settled hN hM

/-! ### A callback that refills -/

/-- `Reset` of `p`, the last pointer to its slot; the callback acquires a slot and moves the pointer to
`target`, in `steps` steps. -/
def refill (p other acquired target : ι) (steps : Nat) : List (Event ι) :=
  .call (.null other) :: .call (.acquire p 1) :: List.replicate 3 .run ++
    .call (.reset p) :: List.replicate 2 .run ++ .call (.acquire acquired 1) :: List.replicate 3 .run ++
    .call (.moveAssign target acquired) :: List.replicate steps .run ++
    [.call (.destroy acquired), .ret, .run, .run]

/-- Another pointer is the target. -/
theorem reentrant_exact_refill : ∃ s : Reentrant (Fin 3) Config.kMaxSession 4,
    Runs step (fun s e => s.Proper e ∧ s.Undisturbed e) (start (Fin 3) Config.kMaxSession 4)
        (refill 0 1 2 1 4) s ∧
      s.stack = [] ∧ s.Settled := by
  obtain ⟨s, hs, hstack⟩ : ∃ s, execIf (fun s e => decide (s.Proper e ∧ s.Undisturbed e)) step
      (start (Fin 3) Config.kMaxSession 4) (refill 0 1 2 1 4) = some s ∧ s.stack = [] := by decide +kernel
  have r : Runs step (fun s e => s.Proper e ∧ s.Undisturbed e) (start (Fin 3) Config.kMaxSession 4)
      (refill 0 1 2 1 4) s :=
    .of_execIf (I := fun _ => True) (fun _ _ _ h => of_decide_eq_true h) (fun _ _ _ _ _ _ => trivial)
      trivial hs
  exact ⟨s, r, hstack, reentrant_exact (by decide) (by decide) (by decide) r⟩

/-- The pointer that is reset is the target: its old slot is released once more, and the slot that
the callback acquired is lost. -/
theorem reassigned_leaks : ∃ s : Reentrant (Fin 3) Config.kMaxSession 4,
    Runs step Proper (start (Fin 3) Config.kMaxSession 4) (refill 0 1 2 0 5) s ∧ s.stack = [] ∧
      s.mem.refCount 0 = 2 ^ 64 - 1 ∧ (s.mem.set.cells 4095).state = 1 ∧ s.mem.refCount 4095 = 1 ∧
      ∀ a i, (s.mem.ptr a).names i = false := by
  obtain ⟨s, hs, hstack, hcount, hstate, hlost, hptr⟩ : ∃ s, execIf (fun s e => decide (s.Proper e)) step
      (start (Fin 3) Config.kMaxSession 4) (refill 0 1 2 0 5) = some s ∧ s.stack = [] ∧
        s.mem.refCount 0 = 2 ^ 64 - 1 ∧ (s.mem.set.cells 4095).state = 1 ∧ s.mem.refCount 4095 = 1 ∧
        ∀ a, (s.mem.ptr a).pool = false := by
    decide +kernel
  refine ⟨s, .of_execIf (I := fun _ => True) (fun _ _ _ h => of_decide_eq_true h)
    (fun _ _ _ _ _ _ => trivial) trivial hs, hstack, hcount, hstate, hlost, fun a i => ?_⟩
  by_contra h
  have hnames := Pointers.names_iff.mp (Bool.eq_true_of_not_eq_false h)
  rw [hptr a] at hnames
  exact absurd hnames.2.2.1 Bool.false_ne_true

end Reentrant

end IocpServer
