import IocpServer.Packet.Block
import IocpServer.Session.Receive

/-!
# Client — Client

`Tests/Base/Client.cpp`: the loops of `SendByte` and `ReceiveByte` over the results of `send` and
`recv`, and the packets `SendPacket` and `ReceivePacket` make of them.

* `recv_spec`: one `recv`, inside a packet.
* `Hears.recv`: and in a stream of packets.
* `client_stream`: in every run the bytes on the socket are the packets sent, and the packets
  received are those of the stream, however `send` and `recv` cut either.
-/

namespace IocpServer

/-- The `int` that a `size_t` is converted to. -/
def i32 (n : Nat) : Int := if u32 n < 2 ^ 31 then u32 n else (u32 n : Int) - 2 ^ 32

/-- `Client`.  `outgoing` is the bytes that `SendByte` is sending, with its `bytesSent`; `incoming`
is the buffer that `ReceivePacket` was given, `body` the `len` of the second `ReceiveByte`, `none` in
the first, and `heard` the packets returned.  A client whose call has failed makes no more. -/
structure Client where
  outgoing : Option (List Byte × Nat)
  incoming : PacketBlock
  body : Option Int
  bytesReceived : Nat
  heard : List (List Byte)
  lost : Bool

namespace Client

/-- A client before its first call, with any buffer. -/
def start (buffer : PacketBlock) : Client := ⟨none, buffer, none, 0, [], false⟩

/-! ### Sending -/

/-- The condition of the loop in `SendByte`. -/
def sending (buffer : List Byte) (bytesSent : Nat) : Option (List Byte × Nat) :=
  if bytesSent < buffer.length then some (buffer, bytesSent) else none

/-- `SendPacket`, of the packet at the start of a memory. -/
def sendPacket (c : Client) (memory : List Byte) : Option Client :=
  if c.lost ∨ c.outgoing.isSome then none
  else do
    let buffer ← readAt memory 0 (headerSize memory)
    return { c with outgoing := sending buffer 0 }

/-- `send` returns: the bytes it has taken, or that it has failed. -/
def sent (c : Client) (result : Option Nat) : Option (Client × List Byte) :=
  if c.lost then none
  else do
    let (buffer, bytesSent) ← c.outgoing
    match result with
    | some n => do
        let data ← readAt buffer bytesSent n
        return ({ c with outgoing := sending buffer (bytesSent + n) }, data)
    | none => return ({ c with outgoing := none, lost := true }, [])

/-! ### Receiving -/

/-- The place in the buffer that `ReceiveByte` was given. -/
def base (c : Client) : Nat := if c.body.isNone then 0 else kHeaderSize

/-- Its `len`. -/
def len (c : Client) : Int := c.body.getD kHeaderSize

/-- `ReceivePacket` returns, and is called again. -/
def deliver (c : Client) : Client :=
  { c with
    heard := c.heard ++ [c.incoming.bytes.take (headerSize c.incoming.bytes)]
    body := none
    bytesReceived := 0 }

/-- From a `recv` that has returned to the next call of `recv`. -/
def next (c : Client) : Client :=
  if (c.bytesReceived : Int) < c.len then c
  else if c.body.isSome then c.deliver
  else
    let len := i32 (sub64 (headerSize c.incoming.bytes) kHeaderSize)
    let c := { c with body := some len, bytesReceived := 0 }
    if 0 < len then c else c.deliver

/-- `recv` returns: the bytes it has stored, or that it has failed. -/
def recv (c : Client) : Option (List Byte) → Option Client
  | some data =>
      if c.lost then none
      else do
        let incoming ← c.incoming.store (c.base + c.bytesReceived) data
        return next { c with incoming, bytesReceived := c.bytesReceived + data.length }
  | none => if c.lost then none else some { c with lost := true }

/-! ### One packet -/

/-- A packet that fits in a block. -/
structure Fits (p : List Byte) : Prop where
  header : kHeaderSize ≤ p.length
  size : headerSize p = p.length
  le : p.length ≤ Config.kMaxPacketSize

/-- The client has the bytes `t` of a packet in its buffer. -/
structure At (c : Client) (t : List Byte) : Prop where
  stored : c.incoming.bytes.take t.length = t
  header : c.body = none → t.length = c.bytesReceived ∧ t.length < kHeaderSize
  body : ∀ len, c.body = some len → len = (headerSize t : Int) - kHeaderSize ∧
    t.length = kHeaderSize + c.bytesReceived ∧ t.length < headerSize t

theorem start_at (buffer : PacketBlock) : (start buffer).At [] :=
  ⟨rfl, fun _ => ⟨rfl, by decide⟩, fun _ h => nomatch h⟩

theorem i32_size {p : List Byte} (h : kHeaderSize ≤ headerSize p) :
    i32 (sub64 (headerSize p) kHeaderSize) = (headerSize p : Int) - kHeaderSize := by
  have hlt := headerSize_lt p
  have hh : kHeaderSize = 4 := rfl
  rw [sub64_of_le h (by omega), i32, u32_of_lt (by omega), if_pos (by omega)]
  omega

/-- What `recv` promises: at least one byte, and no more than it was asked for. -/
def Room (c : Client) (data : List Byte) : Prop :=
  1 ≤ data.length ∧ ((c.bytesReceived + data.length : Nat) : Int) ≤ c.len

instance (c : Client) (data : List Byte) : Decidable (c.Room data) :=
  inferInstanceAs (Decidable (_ ∧ _))

variable {c : Client} {t data p more : List Byte}

theorem At.place (h : c.At t) : c.base + c.bytesReceived = t.length := by
  rw [base]
  cases hb : c.body with
  | none =>
    rw [(h.header hb).1]
    exact Nat.zero_add _
  | some len =>
    rw [(h.body len hb).2.1]
    rfl

/-- The size in a front part of a packet that holds its header. -/
theorem headerSize_front {u : List Byte} (hu : u <+: p) (h4 : kHeaderSize ≤ u.length) :
    headerSize u = headerSize p := by
  obtain ⟨v, rfl⟩ := hu
  exact (headerSize_append v h4).symm

/-- The bytes asked for are of the same packet. -/
theorem At.front (hp : Fits p) (h : c.At t) (hpre : t ++ data <+: p ++ more) (hr : c.Room data) :
    t ++ data <+: p := by
  refine List.prefix_of_prefix_length_le hpre (List.prefix_append p more) ?_
  have hle := hr.2
  have hmin := hp.header
  rw [len] at hle
  rw [List.length_append]
  cases hb : c.body with
  | none =>
    obtain ⟨hlen, -⟩ := h.header hb
    rw [hb, Option.getD_none] at hle
    omega
  | some len =>
    obtain ⟨hlen, ht, hlt⟩ := h.body len hb
    rw [hb, Option.getD_some, hlen] at hle
    have hfront : headerSize t = headerSize (p ++ more) :=
      headerSize_front ((List.prefix_append t data).trans hpre) (by omega)
    rw [headerSize_append more hp.header, hp.size] at hfront
    omega

/-- The buffer begins with what has been stored. -/
theorem take_store {b b' : PacketBlock} (ht : b.bytes.take t.length = t)
    (hb : b'.bytes = Slice.store t.length data b.bytes) :
    b'.bytes.take (t ++ data).length = t ++ data := by
  rw [hb, Slice.store, ht, ← List.append_assoc]
  exact List.take_left

/-- The whole packet is returned. -/
theorem deliver_heard {b : PacketBlock} (hp : Fits p) (hb : b.bytes.take p.length = p) :
    b.bytes.take (headerSize b.bytes) = p := by
  have hsize : headerSize b.bytes = p.length := by
    rw [← headerSize_take hp.header b.bytes, hb]
    exact hp.size
  rw [hsize, hb]

/-- **One `recv`** stores more of the packet, and at its end `ReceivePacket` returns it. -/
theorem recv_spec (hp : Fits p) (hl : c.lost = false) (h : c.At t)
    (hpre : t ++ data <+: p ++ more) (hr : c.Room data) :
    ∃ d, c.recv (some data) = some d ∧ d.lost = false ∧ d.outgoing = c.outgoing ∧
      (d.heard = c.heard ∧ d.At (t ++ data) ∨
        d.heard = c.heard ++ [p] ∧ d.At [] ∧ t ++ data = p) := by
  have hu := h.front hp hpre hr
  have hule := hu.length_le
  have hple := hp.le
  have hh : kHeaderSize = 4 := rfl
  rw [List.length_append] at hule
  obtain ⟨b, hs, hbytes⟩ := c.incoming.store_of_le t.length data (hule.trans hple)
  have htake := take_store h.stored hbytes
  set d : Client := { c with incoming := b, bytesReceived := c.bytesReceived + data.length } with hd
  have hrecv : c.recv (some data) = some d.next := by
    rw [recv, if_neg (by rw [hl]; exact Bool.false_ne_true), h.place]
    exact Option.bind_eq_some_iff.mpr ⟨b, hs, rfl⟩
  -- the packet is whole, or not
  have whole : t ++ data = p → d.deliver.heard = c.heard ++ [p] ∧ d.deliver.At [] := by
    intro e
    rw [e] at htake
    refine ⟨?_, rfl, fun _ => ⟨rfl, by decide⟩, fun _ h => nomatch h⟩
    rw [deliver, deliver_heard hp htake]
  have full : p.length ≤ t.length + data.length → t ++ data = p := by
    intro hle
    exact hu.eq_of_length_le (by rwa [List.length_append])
  refine ⟨d.next, hrecv, ?_⟩
  rw [next]
  cases hb : c.body with
  | none =>
    obtain ⟨hlen, -⟩ := h.header hb
    have hle := hr.2
    rw [len, hb, Option.getD_none] at hle
    have hdlen : d.len = kHeaderSize := by rw [len, hd, hb, Option.getD_none]
    have hdb : d.body = none := hb
    by_cases hpart : t.length + data.length < kHeaderSize
    · rw [if_pos (by rw [hdlen, hd]; show ((c.bytesReceived + data.length : Nat) : Int) < _; omega)]
      refine ⟨hl, rfl, .inl ⟨rfl, htake, fun _ => ?_, fun len hlen => ?_⟩⟩
      · rw [List.length_append]
        exact ⟨by rw [hlen], hpart⟩
      · rw [hdb] at hlen
        cases hlen
    · rw [if_neg (by rw [hdlen, hd]; show ¬ ((c.bytesReceived + data.length : Nat) : Int) < _; omega),
        if_neg (by simp)]
      -- the header is complete
      have h4 : (t ++ data).length = kHeaderSize := by
        rw [List.length_append]
        omega
      have hsize : headerSize b.bytes = p.length := by
        rw [← headerSize_take h4.ge b.bytes, htake, headerSize_front hu h4.ge]
        exact hp.size
      have hi : i32 (sub64 (headerSize d.incoming.bytes) kHeaderSize) =
          (p.length : Int) - kHeaderSize := by
        rw [← hsize]
        exact i32_size (by rw [hsize]; exact hp.header)
      simp only [hi]
      split
      · refine ⟨hl, rfl, .inl ⟨rfl, htake, fun hnone => (nomatch hnone), fun len hlen => ?_⟩⟩
        obtain rfl := Option.some.inj hlen
        have hfront := headerSize_front hu h4.ge
        rw [hp.size] at hfront
        refine ⟨by rw [hfront], h4, ?_⟩
        rw [hfront]
        omega
      · have e := full (by omega)
        exact ⟨hl, rfl, .inr ⟨(whole e).1, (whole e).2, e⟩⟩
  | some len =>
    obtain ⟨hlen, ht, hlt⟩ := h.body len hb
    have hfront : headerSize t = p.length := by
      rw [headerSize_front ((List.prefix_append t data).trans hu) (by omega)]
      exact hp.size
    have hdb : d.body = some len := hb
    have hdlen : d.len = len := by rw [Client.len, hdb, Option.getD_some]
    by_cases hpart : t.length + data.length < p.length
    · rw [if_pos (by
        rw [hdlen, hlen, hfront, hd]
        show ((c.bytesReceived + data.length : Nat) : Int) < _
        omega)]
      refine ⟨hl, rfl, .inl ⟨rfl, htake, fun hnone => ?_, fun len' hlen' => ?_⟩⟩
      · rw [hdb] at hnone
        cases hnone
      · rw [hdb] at hlen'
        obtain rfl := Option.some.inj hlen'
        have hfront' : headerSize (t ++ data) = p.length := by
          rw [headerSize_append data (by omega), hfront]
        rw [hfront', List.length_append]
        refine ⟨by rw [hlen, hfront], ?_, hpart⟩
        rw [ht]
        exact Nat.add_assoc ..
    · rw [if_neg (by
          rw [hdlen, hlen, hfront, hd]
          show ¬ ((c.bytesReceived + data.length : Nat) : Int) < _
          omega),
        if_pos (by simp)]
      have e := full (by omega)
      exact ⟨hl, rfl, .inr ⟨(whole e).1, (whole e).2, e⟩⟩

/-! ### A stream of packets -/

/-- The client has received the bytes `bs` of the packets `ps`, and has returned those of the packets
that are whole. -/
def Hears (ps : List (List Byte)) (bs : List Byte) (c : Client) : Prop :=
  ∃ n t, n ≤ ps.length ∧ c.heard = ps.take n ∧ bs = (ps.take n).flatten ++ t ∧ c.At t

variable {ps : List (List Byte)} {bs : List Byte}

theorem start_hears (buffer : PacketBlock) (ps : List (List Byte)) : Hears ps [] (start buffer) :=
  ⟨0, [], Nat.zero_le _, rfl, rfl, start_at buffer⟩

theorem Hears.heard (h : Hears ps bs c) : c.heard <+: ps := by
  obtain ⟨n, t, -, hheard, -⟩ := h
  rw [hheard]
  exact List.take_prefix n ps

/-- Packets may be added behind. -/
theorem Hears.append (h : Hears ps bs c) (qs : List (List Byte)) : Hears (ps ++ qs) bs c := by
  obtain ⟨n, t, hn, hheard, hbs, hat⟩ := h
  have htake : (ps ++ qs).take n = ps.take n := List.take_append_of_le_length hn
  refine ⟨n, t, ?_, ?_, ?_, hat⟩
  · rw [List.length_append]
    exact hn.trans (Nat.le_add_right _ _)
  · rw [htake]
    exact hheard
  · rw [htake]
    exact hbs

/-- The packet the client is in. -/
theorem flatten_split {n : Nat} (hn : n < ps.length) :
    ps.flatten = (ps.take n).flatten ++ (ps[n] ++ (ps.drop (n + 1)).flatten) := by
  conv_lhs => rw [← List.take_append_drop n ps, List.drop_eq_getElem_cons hn]
  rw [List.flatten_append, List.flatten_cons]

/-- When all the bytes are there, so are all the packets. -/
theorem Hears.all (hps : ∀ p ∈ ps, Fits p) (h : Hears ps bs c) (he : bs = ps.flatten) :
    c.heard = ps := by
  obtain ⟨n, t, hn, hheard, hbs, hat⟩ := h
  rcases Nat.lt_or_eq_of_le hn with hlt | rfl
  · have hp := hps ps[n] (List.getElem_mem hlt)
    have ht : t = ps[n] ++ (ps.drop (n + 1)).flatten := by
      rw [flatten_split hlt, hbs] at he
      exact List.append_cancel_left he
    have hle : ps[n].length ≤ t.length := by
      rw [ht, List.length_append]
      exact Nat.le_add_right _ _
    have hmin := hp.header
    cases hb : c.body with
    | none =>
      have hlen := (hat.header hb).2
      omega
    | some len =>
      obtain ⟨-, -, hlen⟩ := hat.body len hb
      rw [ht, headerSize_append _ hmin, hp.size, ← ht] at hlen
      omega
  · rw [hheard, List.take_length]

/-- **One `recv`** on a stream of packets. -/
theorem Hears.recv (hps : ∀ p ∈ ps, Fits p) (h : Hears ps bs c) (hl : c.lost = false)
    (hpre : bs ++ data <+: ps.flatten) (hr : c.Room data) :
    ∃ d, c.recv (some data) = some d ∧ d.lost = false ∧ d.outgoing = c.outgoing ∧
      Hears ps (bs ++ data) d := by
  obtain ⟨n, t, hn, hheard, rfl, hat⟩ := h
  rcases Nat.lt_or_eq_of_le hn with hlt | rfl
  · rw [flatten_split hlt, List.append_assoc, List.prefix_append_right_inj] at hpre
    obtain ⟨d, hd, hlost, hout, hnext⟩ := recv_spec (hps ps[n] (List.getElem_mem hlt)) hl hat hpre hr
    refine ⟨d, hd, hlost, hout, ?_⟩
    rcases hnext with ⟨hsame, hat'⟩ | ⟨hmore, hat', he⟩
    · exact ⟨n, t ++ data, hn, hsame.trans hheard, List.append_assoc .., hat'⟩
    · have htake : ps.take (n + 1) = ps.take n ++ [ps[n]] := (List.take_append_getElem hlt).symm
      refine ⟨n + 1, [], hlt, ?_, ?_, hat'⟩
      · rw [hmore, hheard, htake]
      · rw [htake, List.flatten_append, List.flatten_singleton, List.append_nil, List.append_assoc,
          he]
  · have hlen := hpre.length_le
    have hpos := hr.1
    rw [List.take_length, List.append_assoc, List.length_append, List.length_append] at hlen
    omega

end Client

/-! ### Runs -/

/-- A client at its socket: the packets given to `SendPacket`, the bytes `send` has taken, and the
bytes `recv` has stored. -/
structure Talk where
  client : Client
  said : List (List Byte)
  sent : List Byte
  received : List Byte

namespace Talk

/-- A call of `SendPacket`, or a return of `send` or `recv`. -/
inductive Event where
  | sendPacket (memory : List Byte)
  | sent (result : Option Nat)
  | recv (result : Option (List Byte))

def start (buffer : PacketBlock) : Talk := ⟨.start buffer, [], [], []⟩

def step (s : Talk) : Event → Option Talk
  | .sendPacket memory => do
      let client ← s.client.sendPacket memory
      return { s with client, said := s.said ++ [memory.take (headerSize memory)] }
  | .sent result => do
      let (client, data) ← s.client.sent result
      return { s with client, sent := s.sent ++ data }
  | .recv result => do
      let client ← s.client.recv result
      return { s with client, received := s.received ++ result.getD [] }

/-- What the socket promises of its calls, which are made by a client whose calls have not failed:
`send` takes some of the bytes that are left, and `recv` stores some of the bytes of the packets `ps`,
in their order. -/
def Legit (ps : List (List Byte)) (s : Talk) : Event → Prop
  | .sendPacket memory =>
      s.client.lost = false ∧ s.client.outgoing = none ∧ headerSize memory ≤ memory.length
  | .sent result => s.client.lost = false ∧ ∃ call ∈ s.client.outgoing,
      ∀ n ∈ result, 1 ≤ n ∧ call.2 + n ≤ call.1.length
  | .recv result => s.client.lost = false ∧
      ∀ data ∈ result, s.client.Room data ∧ s.received ++ data <+: ps.flatten

instance (ps : List (List Byte)) (s : Talk) : (e : Event) → Decidable (Legit ps s e)
  | .sendPacket _ => inferInstanceAs (Decidable (_ ∧ _ ∧ _))
  | .sent result => inferInstanceAs (Decidable (_ ∧ ∃ call ∈ s.client.outgoing,
      ∀ n ∈ result, 1 ≤ n ∧ call.2 + n ≤ call.1.length))
  | .recv result => inferInstanceAs (Decidable (_ ∧
      ∀ data ∈ result, s.client.Room data ∧ s.received ++ data <+: ps.flatten))

/-- The bytes on the socket and those to come are the packets. -/
structure Inv (ps : List (List Byte)) (s : Talk) : Prop where
  hears : s.client.Hears ps s.received
  busy : ∀ buffer k, s.client.outgoing = some (buffer, k) →
    k < buffer.length ∧ s.sent ++ buffer.drop k = s.said.flatten
  idle : s.client.outgoing = none → s.client.lost = false → s.sent = s.said.flatten
  front : s.sent <+: s.said.flatten

variable {ps : List (List Byte)} {s : Talk}

theorem start_inv (buffer : PacketBlock) (ps : List (List Byte)) : Inv ps (start buffer) where
  hears := Client.start_hears buffer ps
  busy _ _ h := by cases h
  idle _ _ := rfl
  front := List.prefix_refl _

/-- What a client hears is not changed by what it sends. -/
theorem hears_sending {c : Client} {bs : List Byte} (h : c.Hears ps bs)
    (outgoing : Option (List Byte × Nat)) (lost : Bool) :
    Client.Hears ps bs { c with outgoing, lost } := by
  obtain ⟨n, t, hn, hheard, hbs, hat⟩ := h
  exact ⟨n, t, hn, hheard, hbs, hat.stored, hat.header, hat.body⟩

/-- Before the end of its buffer `SendByte` goes on, and there it returns. -/
theorem sending_inv {c : Client} {said : List (List Byte)} {sent received buffer : List Byte} {k : Nat}
    (hears : c.Hears ps received) (hout : sent ++ buffer.drop k = said.flatten) :
    Inv ps ⟨{ c with outgoing := Client.sending buffer k }, said, sent, received⟩ := by
  have hfront : sent <+: said.flatten := ⟨_, hout⟩
  have hears' := hears_sending hears (Client.sending buffer k) c.lost
  by_cases hlt : k < buffer.length
  · have hs : Client.sending buffer k = some (buffer, k) := if_pos hlt
    refine ⟨hears', fun b j hj => ?_, fun hnone => ?_, hfront⟩
    · obtain ⟨rfl, rfl⟩ := Prod.mk.inj (Option.some.inj (hs.symm.trans hj))
      exact ⟨hlt, hout⟩
    · exact absurd (hs.symm.trans hnone) (by simp)
  · have hs : Client.sending buffer k = none := if_neg hlt
    refine ⟨hears', fun b j hj => absurd (hs.symm.trans hj) (by simp), fun _ _ => ?_, hfront⟩
    rw [List.drop_eq_nil_of_le (not_lt.mp hlt), List.append_nil] at hout
    exact hout

/-- **One event.**  It is served without a fault and keeps the invariant. -/
theorem step_inv (hps : ∀ p ∈ ps, Client.Fits p) (h : Inv ps s) {e : Event} (he : Legit ps s e) :
    ∃ t, step s e = some t ∧ Inv ps t := by
  obtain ⟨c, said, sent, received⟩ := s
  cases e with
  | sendPacket memory =>
    obtain ⟨hl, hout, hmem⟩ := he
    have hguard : ¬ (c.lost = true ∨ c.outgoing.isSome = true) := by
      rw [show c.lost = false from hl, show c.outgoing = none from hout]
      decide
    have hread : readAt memory 0 (headerSize memory) = some (memory.take (headerSize memory)) := by
      rw [readAt_of_le (by rwa [Nat.zero_add]), Slice.fetch_zero]
    refine ⟨⟨{ c with outgoing := Client.sending (memory.take (headerSize memory)) 0 },
      said ++ [memory.take (headerSize memory)], sent, received⟩, ?_, sending_inv h.hears ?_⟩
    · simp only [step, Client.sendPacket, if_neg hguard, hread, Option.bind_eq_bind,
        Option.bind_some]
      rfl
    · have hidle : sent = said.flatten := h.idle hout hl
      rw [List.drop_zero, hidle, List.flatten_append, List.flatten_singleton]
  | sent result =>
    obtain ⟨hl, ⟨buffer, k⟩, hout, hres⟩ := he
    obtain ⟨hlt, hrest⟩ := h.busy buffer k hout
    have hguard : ¬ c.lost = true := by
      rw [show c.lost = false from hl]
      decide
    have hout' : c.outgoing = some (buffer, k) := hout
    cases result with
    | some n =>
      obtain ⟨-, hn⟩ := hres n rfl
      refine ⟨⟨{ c with outgoing := Client.sending buffer (k + n) }, said,
        sent ++ Slice.fetch k n buffer, received⟩, ?_, sending_inv h.hears ?_⟩
      · simp only [step, Client.sent, if_neg hguard, hout', readAt_of_le hn, Option.bind_eq_bind,
          Option.bind_some]
        rfl
      · rw [Slice.fetch, List.append_assoc, ← List.drop_drop, List.take_append_drop]
        exact hrest
    | none =>
      refine ⟨⟨{ c with outgoing := none, lost := true }, said, sent ++ [], received⟩, ?_,
        hears_sending h.hears none true, (fun _ _ hb => by cases hb),
        fun _ hf => Bool.noConfusion hf, ?_⟩
      · simp only [step, Client.sent, if_neg hguard, hout', Option.bind_eq_bind, Option.bind_some]
        rfl
      · rw [List.append_nil]
        exact h.front
  | recv result =>
    obtain ⟨hl, hres⟩ := he
    cases result with
    | some data =>
      obtain ⟨hroom, hpre⟩ := hres data rfl
      obtain ⟨d, hd, hlost, hout, hhears⟩ := h.hears.recv hps hl hpre hroom
      refine ⟨⟨d, said, sent, received ++ data⟩, ?_, hhears, fun buffer k hk => ?_,
        fun hnone _ => ?_, h.front⟩
      · have hd' : c.recv (some data) = some d := hd
        simp only [step, hd', Option.bind_eq_bind, Option.bind_some]
        rfl
      · exact h.busy buffer k (hout.symm.trans hk)
      · exact h.idle (hout.symm.trans hnone) hl
    | none =>
      have hguard : ¬ c.lost = true := by
        rw [show c.lost = false from hl]
        decide
      refine ⟨⟨{ c with lost := true }, said, sent, received ++ []⟩, ?_, ?_,
        fun buffer k hk => h.busy buffer k hk, fun _ hf => Bool.noConfusion hf, h.front⟩
      · simp only [step, Client.recv, if_neg hguard, Option.bind_eq_bind, Option.bind_some]
        rfl
      · rw [List.append_nil]
        exact hears_sending h.hears c.outgoing true

/-- **A client and its stream.**  However `send` and `recv` cut the streams, and wherever they fail:
the bytes sent are a first part of the packets given to `SendPacket`, and are these packets when its
last call has returned; the packets that `ReceivePacket` has returned are the first of the packets
`ps` in the stream, and are all of them when all the bytes have been received; and the next return of
`send` or `recv` is served without a fault. -/
theorem client_stream (hps : ∀ p ∈ ps, Client.Fits p) {buffer : PacketBlock} {es : List Event}
    (r : Runs step (Legit ps) (start buffer) es s) :
    s.sent <+: s.said.flatten ∧
      (s.client.outgoing = none → s.client.lost = false → s.sent = s.said.flatten) ∧
      s.client.heard <+: ps ∧ (s.received = ps.flatten → s.client.heard = ps) ∧
      ∀ e, Legit ps s e → ∃ t, step s e = some t := by
  have h : Inv ps s := by
    refine r.invariant (start_inv buffer ps) fun a e b ha he hb => ?_
    obtain ⟨b', hb', hinv⟩ := step_inv hps ha he
    obtain rfl : b = b' := Option.some.inj (hb.symm.trans hb')
    exact hinv
  refine ⟨h.front, h.idle, h.hears.heard, h.hears.all hps, fun e he => ?_⟩
  obtain ⟨t, ht, -⟩ := step_inv hps h he
  exact ⟨t, ht⟩

/-- A packet sent in two pieces while another is received in three, of which the second begins with
the rest of its header. -/
theorem client_stream_pieces :
    ∃ s, Runs step (Legit [[6, 0, 2, 0, 66, 67], [4, 0, 1, 0]]) (start (.filled 0))
        [.sendPacket [5, 0, 2, 0, 65], .sent (some 2), .recv (some [6, 0]), .sent (some 3),
          .recv (some [2, 0]), .recv (some [66, 67]), .recv (some [4])] s ∧
      s.client.heard = [[6, 0, 2, 0, 66, 67]] ∧ s.sent = [5, 0, 2, 0, 65] ∧
      s.client.heard <+: [[6, 0, 2, 0, 66, 67], [4, 0, 1, 0]] := by
  have hrun : ((execIf (fun s e => decide (Legit [[6, 0, 2, 0, 66, 67], [4, 0, 1, 0]] s e)) step
      (start (.filled 0)) [.sendPacket [5, 0, 2, 0, 65], .sent (some 2), .recv (some [6, 0]),
        .sent (some 3), .recv (some [2, 0]), .recv (some [66, 67]), .recv (some [4])]).map fun s =>
      (s.client.heard, s.sent)) = some ([[6, 0, 2, 0, 66, 67]], [5, 0, 2, 0, 65]) := by
    decide +kernel
  obtain ⟨s, hs, he⟩ := Option.map_eq_some_iff.mp hrun
  obtain ⟨hheard, hsent⟩ := Prod.mk.inj he
  have r : Runs step (Legit [[6, 0, 2, 0, 66, 67], [4, 0, 1, 0]]) (start (.filled 0))
      [.sendPacket [5, 0, 2, 0, 65], .sent (some 2), .recv (some [6, 0]), .sent (some 3),
        .recv (some [2, 0]), .recv (some [66, 67]), .recv (some [4])] s :=
    Runs.of_execIf (I := fun _ => True) (fun _ _ _ h => of_decide_eq_true h)
      (fun _ _ _ _ _ _ => trivial) trivial hs
  have hps : ∀ p ∈ ([[6, 0, 2, 0, 66, 67], [4, 0, 1, 0]] : List (List Byte)), Client.Fits p := by
    intro p hp
    rcases List.mem_cons.mp hp with rfl | hp
    · exact ⟨by decide, by decide, by decide⟩
    · obtain rfl := List.mem_singleton.mp hp
      exact ⟨by decide, by decide, by decide⟩
  obtain ⟨-, -, hfront, -⟩ := client_stream hps r
  exact ⟨s, r, hheard, hsent, hfront⟩

end Talk

end IocpServer
