import IocpServer.Server.Seat
import IocpServer.Support.Bags

/-!
# Server — Code

What the fields of a session become, and what the instructions of the threads stand for: the
references they hold, the locks they are inside, and how far a connection, an accept or a disconnect
has come.
-/

namespace IocpServer

/-- How many references a pointer is. -/
def refs (p : Option Nat) : Nat := p.elim 0 fun _ => 1

@[simp] theorem refs_none : refs none = 0 := rfl

@[simp] theorem refs_some (g : Nat) : refs (some g) = 1 := rfl

theorem refs_le (p : Option Nat) : refs p ≤ 1 := by
  cases p <;> simp

theorem refs_eq_zero {p : Option Nat} : refs p = 0 ↔ p = none := by
  cases p <;> simp

namespace Conn

variable (c : Conn) (x y : Ov)

@[simp] theorem setType_ops (t : IoType) : ((c.setType x t).ov y).ops = (c.ov y).ops := by
  by_cases e : y = x
  · subst e; simp [setType]
  · simp [setType, Function.update_of_ne e]

@[simp] theorem setType_ptr (t : IoType) :
    ((c.setType x t).ov y).sessionPtr = (c.ov y).sessionPtr := by
  by_cases e : y = x
  · subst e; simp [setType]
  · simp [setType, Function.update_of_ne e]

@[simp] theorem setType_type (t : IoType) :
    ((c.setType x t).ov y).ioType = if y = x then t else (c.ov y).ioType := by
  by_cases e : y = x
  · subst e; simp [setType]
  · simp [setType, e]

@[simp] theorem setPtr_ops (p : Option Nat) : ((c.setPtr x p).ov y).ops = (c.ov y).ops := by
  by_cases e : y = x
  · subst e; simp [setPtr]
  · simp [setPtr, Function.update_of_ne e]

@[simp] theorem setPtr_ptr (p : Option Nat) :
    ((c.setPtr x p).ov y).sessionPtr = if y = x then p else (c.ov y).sessionPtr := by
  by_cases e : y = x
  · subst e; simp [setPtr]
  · simp [setPtr, e]

@[simp] theorem setPtr_type (p : Option Nat) :
    ((c.setPtr x p).ov y).ioType = (c.ov y).ioType := by
  by_cases e : y = x
  · subst e; simp [setPtr]
  · simp [setPtr, Function.update_of_ne e]

@[simp] theorem queue_ops :
    ((c.queue x).ov y).ops = (c.ov y).ops + if y = x then 1 else 0 := by
  by_cases e : y = x
  · subst e; simp [queue]
  · simp [queue, e]

@[simp] theorem queue_ptr : ((c.queue x).ov y).sessionPtr = (c.ov y).sessionPtr := by
  by_cases e : y = x
  · subst e; simp [queue]
  · simp [queue, Function.update_of_ne e]

@[simp] theorem queue_type : ((c.queue x).ov y).ioType = (c.ov y).ioType := by
  by_cases e : y = x
  · subst e; simp [queue]
  · simp [queue, Function.update_of_ne e]

@[simp] theorem deliver_ops :
    ((c.deliver x).ov y).ops = (c.ov y).ops - if y = x then 1 else 0 := by
  by_cases e : y = x
  · subst e; simp [deliver]
  · simp [deliver, e]

@[simp] theorem deliver_ptr : ((c.deliver x).ov y).sessionPtr = (c.ov y).sessionPtr := by
  by_cases e : y = x
  · subst e; simp [deliver]
  · simp [deliver, Function.update_of_ne e]

@[simp] theorem deliver_type : ((c.deliver x).ov y).ioType = (c.ov y).ioType := by
  by_cases e : y = x
  · subst e; simp [deliver]
  · simp [deliver, Function.update_of_ne e]

/-- The three `OverlappedEx` reset. -/
theorem reset_ov :
    ((((((c.setPtr .recv none).setType .recv .kNone).setPtr .send none).setType .send
      .kNone).setPtr .disconnect none).setType .disconnect .kNone).ov = c.init.ov := by
  funext x
  cases x <;> rfl

end Conn

/-- The pointers of a session. -/
def ptrs (ov : Ov → Io) : Nat :=
  refs (ov .recv).sessionPtr + refs (ov .send).sessionPtr + refs (ov .disconnect).sessionPtr

theorem ptrs_le (ov : Ov → Io) : ptrs ov ≤ 3 := by
  have h₁ := refs_le (ov .recv).sessionPtr
  have h₂ := refs_le (ov .send).sessionPtr
  have h₃ := refs_le (ov .disconnect).sessionPtr
  rw [ptrs]
  omega

namespace Conn

variable (c : Conn) (x : Ov)

theorem ptr_le_ptrs : refs (c.ov x).sessionPtr ≤ ptrs c.ov := by
  rw [ptrs]
  cases x <;> omega

@[simp] theorem init_ptrs : ptrs c.init.ov = 0 := rfl

@[simp] theorem unlock_ov : (c.unlock x).ov = c.ov := rfl

@[simp] theorem setType_ptrs (t : IoType) : ptrs (c.setType x t).ov = ptrs c.ov := by
  simp only [ptrs, setType_ptr]

@[simp] theorem queue_ptrs : ptrs (c.queue x).ov = ptrs c.ov := by simp only [ptrs, queue_ptr]

@[simp] theorem deliver_ptrs : ptrs (c.deliver x).ov = ptrs c.ov := by simp only [ptrs, deliver_ptr]

/-- One pointer is released and another stored. -/
theorem setPtr_ptrs (p : Option Nat) :
    ptrs (c.setPtr x p).ov + refs (c.ov x).sessionPtr = ptrs c.ov + refs p := by
  simp only [ptrs, setPtr_ptr]
  cases x <;> simp <;> omega

end Conn

/-- A receive or a send is no disconnect. -/
theorem Purpose.ne_disconnect {p : Purpose} (hp : p.ioType = .kRecv ∨ p.ioType = .kSend) :
    p ≠ .disconnect ∧ .disconnect ≠ p.ov := by
  cases p <;> simp [Purpose.ioType, Purpose.ov] at hp ⊢

namespace Instr

/-- The references that an instruction will give up or pass on. -/
def holds : Instr → Nat
  | .drop _ | .enter _ => 1
  | .register _ p | .post _ p => if p.ioType = .kAccept then 1 else 0
  | .assign _ p session => (if p.ioType = .kAccept then 1 else 0) + refs session
  | _ => 0

/-- A slot on its way: popped and not counted yet, or not pushed yet. -/
def keeps : Instr → Bool
  | .init _ | .construct _ | .push _ => true
  | _ => false

/-- Before `sessionPtrs_` has the pointer. -/
def creates : Instr → Bool
  | .init _ | .construct _ | .enter _ => true
  | _ => false

def enters : Instr → Bool
  | .enter _ => true
  | _ => false

/-- Inside `connectCs_`. -/
def inConnectCs : Instr → Bool
  | .connectSession _ _ | .setState _ => true
  | _ => false

def connects : Instr → Bool
  | .connectSession _ _ => true
  | _ => false

def setsState : Instr → Bool
  | .setState _ => true
  | _ => false

/-- `RegisterDisconnect` is to be called. -/
def registers : Instr → Bool
  | .setState _ => true
  | .register _ p => p == .disconnect
  | _ => false

/-- From the decision to disconnect on, around the operation itself, to `Session::Reset`. -/
def disconnects : Instr → Bool
  | .setState _ | .reset _ => true
  | .register _ p | .assign _ p _ | .post _ p => p == .disconnect
  | .complete _ x _ _ | .handleError _ x | .dispatch _ x _ | .dispatched _ x _ _ => x == .disconnect
  | _ => false

/-- `disconnectOv_.sessionPtr_` is set. -/
def pinned : Instr → Bool
  | .post _ p => p == .disconnect
  | .complete _ x _ _ | .handleError _ x | .dispatch _ x _ => x == .disconnect
  | _ => false

/-- `disconnectOv_.ioType_` is set. -/
def typed : Instr → Bool
  | .assign _ p _ | .post _ p => p == .disconnect
  | .complete _ x _ _ | .handleError _ x | .dispatch _ x _ | .dispatched _ x _ _ => x == .disconnect
  | _ => false

/-- The pointers an instruction mentions are to `h`. -/
def Names (h : Nat) : Instr → Prop
  | .setListener g | .init g | .construct g | .enter g | .countDown g | .drop g | .push g
  | .register _ (.accept g) | .post _ (.accept g) | .dispatched _ _ g _ => g = h
  | .failed _ x g => g = h ∧ x ≠ .disconnect
  | .assign _ (.accept g) session => g = h ∧ ∀ k, session = some k → k = h
  | .assign _ .disconnect session => session = some h
  | .assign _ _ session => ∀ k, session = some k → k = h
  | .sendPacket _ p => p.ioType = .kSend
  | _ => True

/-- The thread holds a reference to the session meanwhile. -/
def needs : Instr → Bool
  | .connect _ _ | .connectSession _ _ | .disconnect _ | .setState _ | .reset _ | .dispatch _ _ _
  | .dispatched _ _ _ _ | .handleError _ _ | .failed _ _ _ | .handleAccept _ | .onSend _ | .onRecv _
  | .setListener _ | .countDown _ => true
  | .register _ p | .assign _ p _ | .post _ p | .sendPacket _ p => p != .plain
  | _ => false

end Instr

attribute [simp] Purpose.ov.eq_1 Purpose.ov.eq_2 Purpose.ov.eq_3 Purpose.ov.eq_4 Purpose.ov.eq_5
  Purpose.ov.eq_6 Purpose.ov.eq_7 Purpose.ioType.eq_1 Purpose.ioType.eq_2 Purpose.ioType.eq_3
  Purpose.ioType.eq_4 Purpose.ioType.eq_5 Purpose.ioType.eq_6 Purpose.ioType.eq_7

attribute [simp] Instr.holds.eq_1 Instr.holds.eq_2 Instr.holds.eq_3 Instr.holds.eq_4
  Instr.holds.eq_5 Instr.holds.eq_6 Instr.keeps.eq_1 Instr.keeps.eq_2 Instr.keeps.eq_3
  Instr.keeps.eq_4 Instr.creates.eq_1 Instr.creates.eq_2 Instr.creates.eq_3 Instr.creates.eq_4
  Instr.enters.eq_1 Instr.enters.eq_2 Instr.inConnectCs.eq_1 Instr.inConnectCs.eq_2
  Instr.inConnectCs.eq_3 Instr.connects.eq_1 Instr.connects.eq_2 Instr.setsState.eq_1
  Instr.setsState.eq_2 Instr.registers.eq_1 Instr.registers.eq_2 Instr.registers.eq_3
  Instr.disconnects.eq_1 Instr.disconnects.eq_2 Instr.disconnects.eq_3 Instr.disconnects.eq_4
  Instr.disconnects.eq_5 Instr.disconnects.eq_6 Instr.disconnects.eq_7 Instr.disconnects.eq_8
  Instr.disconnects.eq_9 Instr.disconnects.eq_10 Instr.pinned.eq_1 Instr.pinned.eq_2
  Instr.pinned.eq_3 Instr.pinned.eq_4 Instr.pinned.eq_5 Instr.typed.eq_1 Instr.typed.eq_2
  Instr.typed.eq_3 Instr.typed.eq_4 Instr.typed.eq_5 Instr.typed.eq_6 Instr.typed.eq_7

/-- What stands between the marks. -/
theorem Instr.enters_le (C : Multiset Instr) : num Instr.enters C ≤ weight Instr.holds C := by
  induction C using Multiset.induction_on with
  | empty => exact Nat.le_refl _
  | cons i C ih =>
      rw [num_cons, weight_cons]
      cases i <;> simp <;> omega

theorem Instr.creates_le (C : Multiset Instr) :
    num Instr.creates C ≤ num Instr.keeps C + num Instr.enters C := by
  induction C using Multiset.induction_on with
  | empty => exact Nat.le_refl _
  | cons i C ih =>
      simp only [num_cons]
      cases i <;> simp <;> omega

theorem Instr.connects_le (C : Multiset Instr) : num Instr.connects C ≤ num Instr.inConnectCs C :=
  num_le (fun i hi => by cases i <;> simp_all) C

theorem Instr.setsState_le_locked (C : Multiset Instr) :
    num Instr.setsState C ≤ num Instr.inConnectCs C :=
  num_le (fun i hi => by cases i <;> simp_all) C

theorem Instr.setsState_le (C : Multiset Instr) : num Instr.setsState C ≤ num Instr.disconnects C :=
  num_le (fun i hi => by cases i <;> simp_all) C

theorem Instr.pinned_le (C : Multiset Instr) : num Instr.pinned C ≤ num Instr.disconnects C :=
  num_le (fun i hi => by cases i <;> simp_all) C

theorem Instr.typed_le (C : Multiset Instr) : num Instr.typed C ≤ num Instr.disconnects C :=
  num_le (fun i hi => by cases i <;> simp_all) C

theorem Instr.registers_le (C : Multiset Instr) : num Instr.registers C ≤ num Instr.disconnects C :=
  num_le (fun i hi => by cases i <;> simp_all) C

@[simp] theorem countP_after (w : Nat) (p : Purpose) (b : Bool) (q : Instr → Bool)
    (h₁ : ∀ k, q (.register w (.firstRecv k)) = false) (h₂ : q (.disconnect w) = false) :
    (p.after w b).countP q = 0 := by
  cases p with
  | welcome k | firstRecv k => cases k <;> cases b <;> simp [Purpose.after, h₁, h₂]
  | _ => cases b <;> simp [Purpose.after, h₂]

@[simp] theorem countP_body (w : Nat) (k : TaskKind) (q : Instr → Bool)
    (h₁ : q (.sendPacket w .plain) = false) (h₂ : q (.account w) = false)
    (h₃ : q (.accountEnd w) = false) (h₄ : q (.logIn w) = false) (h₅ : q (.logOut w) = false) :
    (k.body w).countP q = 0 := by
  cases k <;> simp [TaskKind.body, h₁, h₂, h₃, h₄, h₅]

@[simp] theorem countP_call (w : Nat) (k : Call) (q : Instr → Bool)
    (h₁ : q (.sendPacket w .plain) = false) (h₂ : q (.connect w false) = false)
    (h₃ : q (.disconnect w) = false) : (k.body w).countP q = 0 := by
  cases k <;> simp [Call.body, h₁, h₂, h₃]

@[simp] theorem countP_accepts (v : Seat) (x : Ov) (g : Nat) (q : Instr → Bool)
    (h : q (.countDown g) = false) : (v.accepts x g).countP q = 0 := by
  rw [Seat.accepts]
  split
  · simp [h]
  · rfl

theorem countP_last (v : Seat) (p : Option Nat) (q : Instr → Bool) (h : ∀ g, q (.push g) = false) :
    (v.last p).countP q = 0 := by
  cases p with
  | none => rfl
  | some g =>
    simp only [Seat.last, Option.elim]
    split
    · simp [h]
    · rfl

/-- Of the handlers only `Reset` is part of a disconnect. -/
theorem Handler.count {w : Nat} {zero : Bool} {t : IoType} {i : Instr} (h : Handler w zero t i)
    (q : Instr → Bool) (h₁ : q (.handleAccept w) = false) (h₂ : q (.disconnect w) = false)
    (h₃ : q (.onRecv w) = false) (h₄ : q (.onSend w) = false) :
    q i = (decide (t = .kDisconnect) && q (.reset w)) := by
  cases h with
  | accept => simp [h₁]
  | disconnect => simp
  | recv => simp [h₃]
  | send => simp [h₄]
  | recvZero | sendZero | unknown => simp [h₂]

@[simp] theorem holds_after (w : Nat) (p : Purpose) (b : Bool) :
    ((p.after w b).map Instr.holds).sum = 0 := by
  cases p with
  | welcome k | firstRecv k => cases k <;> cases b <;> rfl
  | _ => cases b <;> rfl

@[simp] theorem holds_body (w : Nat) (k : TaskKind) : ((k.body w).map Instr.holds).sum = 0 := by
  cases k <;> rfl

@[simp] theorem holds_call (w : Nat) (k : Call) : ((k.body w).map Instr.holds).sum = 0 := by
  cases k <;> rfl

@[simp] theorem holds_accepts (v : Seat) (x : Ov) (g : Nat) :
    ((v.accepts x g).map Instr.holds).sum = 0 := by
  rw [Seat.accepts]
  split <;> rfl

@[simp] theorem holds_last (v : Seat) (p : Option Nat) :
    ((v.last p).map Instr.holds).sum = 0 := by
  cases p with
  | none => rfl
  | some g =>
    simp only [Seat.last, Option.elim]
    split <;> rfl

theorem Handler.holds {w : Nat} {zero : Bool} {t : IoType} {i : Instr} (h : Handler w zero t i) :
    i.holds = 0 := by
  cases h <;> rfl

theorem keeps_last (v : Seat) (p : Option Nat) :
    (v.last p).countP Instr.keeps = if refs p = 1 ∧ v.count = 1 then 1 else 0 := by
  cases p with
  | none => rfl
  | some g =>
    simp only [Seat.last, Option.elim, refs_some, true_and]
    split <;> rfl


/-- What holds nothing and needs nothing names nothing. -/
theorem Instr.Names.idle {i : Instr} {g h : Nat} (hi : i.Names g) (hn : i.needs = false)
    (hk : i.keeps = false) (h0 : i.holds = 0) : i.Names h := by
  cases i with
  | assign w p session =>
    cases p with
    | plain => cases session with
      | none => intro k hk; cases hk
      | some k => simp at h0
    | _ => simp [Instr.needs] at hn
  | register w p | post w p =>
    cases p with
    | accept g => simp [Instr.needs] at hn
    | _ => trivial
  | sendPacket w p => exact hi
  | drop | enter => simp at h0
  | init | construct | push => simp at hk
  | setListener | countDown | failed | dispatched => simp [Instr.needs] at hn
  | _ => trivial

/-- The pointer that is assigned is to `h`. -/
theorem Instr.Names.session {w h g : Nat} {p : Purpose} {session : Option Nat}
    (hn : (Instr.assign w p session).Names h) (hg : session = some g) : g = h := by
  cases p with
  | accept => exact hn.2 g hg
  | disconnect =>
    rw [hg] at hn
    exact Option.some.inj hn
  | _ => exact hn g hg

theorem names_after (w : Nat) (p : Purpose) (b : Bool) (h : Nat) :
    ∀ i ∈ p.after w b, i.Names h := by
  cases p with
  | welcome k | firstRecv k => cases k <;> cases b <;> simp [Purpose.after, Instr.Names]
  | _ => cases b <;> simp [Purpose.after, Instr.Names]

theorem names_body (w : Nat) (k : TaskKind) (h : Nat) : ∀ i ∈ k.body w, i.Names h := by
  cases k <;> simp [TaskKind.body, Instr.Names, Purpose.ioType]

theorem names_call (w : Nat) (k : Call) (h : Nat) : ∀ i ∈ k.body w, i.Names h := by
  cases k <;> simp [Call.body, Instr.Names, Purpose.ioType]

theorem Handler.names {w : Nat} {zero : Bool} {t : IoType} {i : Instr} (h : Handler w zero t i)
    (g : Nat) : i.Names g := by
  cases h <;> trivial

theorem names_last (v : Seat) {p : Option Nat} {h : Nat} (hp : ∀ g, p = some g → g = h) :
    ∀ i ∈ v.last p, i.Names h := by
  cases p with
  | none => simp [Seat.last]
  | some g =>
    simp only [Seat.last, Option.elim]
    split
    · simpa [Instr.Names] using hp g rfl
    · simp

theorem names_accepts (v : Seat) (x : Ov) {g h : Nat} (hg : g = h) :
    ∀ i ∈ v.accepts x g, i.Names h := by
  rw [Seat.accepts]
  split
  · simpa [Instr.Names] using hg
  · simp

end IocpServer
