import PrefillFabric.Coordinator.State
import PrefillFabric.Lib.Interleaving
import PrefillFabric.Protocol.Roundtrip

/-!
# Two threads on one socket

`Socket::send_frame` sends a frame by two calls of `send_all`, one for the four bytes of the
length and one for the body; and `send_all` calls `send` of the operating system until all has
been taken, which may be a part each time. Nothing keeps another thread from sending in
between. On the connection of a worker there are two threads that do send: the loop that
dispatches groups, and the thread that answers the worker.

The model has any number of threads. Each has a list of bodies to send and is either between
two calls of `send_frame` or in one (`Call`), with some of the frame written and the rest in
buffers. A step is a call, or one `send` of the operating system taking a number of bytes. The
stream keeps for every byte which thread has sent it; the receiver sees the bytes only.

The threads get by exactly if they do so by chance: the frames in the stream are whole if and
only if nobody ever sends while another thread is in the middle of a frame
(`delivered_iff_exclusive`). Then what is received is what was sent.
-/

namespace PrefillFabric

open Codec Interleaving

namespace Socket

/-! ### Frames -/

/-- A body that can be sent: it has a version and a kind at least. -/
abbrev Body := { b : List UInt8 // 2 ≤ b.length }

/-- The length of a body in front of it. -/
def header (b : Body) : List UInt8 := leBytes 4 b.1.length

/-- A frame: the length and the body. -/
def frame (b : Body) : List UInt8 := header b ++ b.1

/-- The connection has ended. -/
def errClosed : ErrorInfo := ⟨.ioFailure, "peer closed the connection"⟩

/-- Receive a frame. -/
def recvFrame : ByteReader (List UInt8) := do
  let len ← word errClosed 4
  if kFrameMaxBytes < len then fail ⟨.oversizedFrame, "incoming frame too large"⟩
  else if len < 2 then fail ⟨.malformedFrame, "frame too short (zero or one byte)"⟩
  else take errClosed len

/-- **A frame is received.** -/
theorem reads_recvFrame {b : Body} (h : b.1.length ≤ kFrameMaxBytes) :
    Reads recvFrame (frame b) b.1 := by
  have hlt : b.1.length < 256 ^ 4 := lt_of_le_of_lt h (by decide)
  refine (Reads.word errClosed hlt).bind ?_
  rw [if_neg (Nat.not_lt.mpr h), if_neg (Nat.not_lt.mpr b.2)]
  exact Reads.take errClosed b.1

/-! ### Sending -/

/-- A call of `send_frame` that has not returned: what has been sent of the frame, the buffer
that is being sent and those that come after it. -/
structure Call where
  body : Body
  written : List UInt8
  buffer : List UInt8
  rest : List (List UInt8)
  spells : written ++ (buffer ++ rest.flatten) = frame body
  buffer_ne_nil : buffer ≠ []
  nil_not_mem : [] ∉ rest

/-- Begin to send a frame: nothing is sent if it is too large, and otherwise the length is sent
and then the body. -/
def sendFrame (b : Body) : Result Call :=
  if kFrameMaxBytes < b.1.length then .error ⟨.oversizedFrame, "frame too large"⟩
  else .ok
    { body := b
      written := []
      buffer := header b
      rest := [b.1]
      spells := by simp [frame]
      buffer_ne_nil := List.ne_nil_of_length_pos (by simp [header])
      nil_not_mem := by
        have hlen := b.2
        simp only [List.mem_singleton]
        exact fun h => by simp [← h] at hlen }

/-- The call after some bytes of its buffer have been taken. If nothing is left it returns. -/
def Call.after (c : Call) (n : ℕ) : Option Call :=
  if h : n < c.buffer.length then
    some
      { c with
        written := c.written ++ c.buffer.take n
        buffer := c.buffer.drop n
        spells := by
          rw [← c.spells, List.append_assoc, ← List.append_assoc (c.buffer.take n),
            List.take_append_drop]
        buffer_ne_nil := List.ne_nil_of_length_pos (by rw [List.length_drop]; omega) }
  else
    match hrest : c.rest with
    | [] => none
    | buf :: rest =>
      some
        { body := c.body
          written := c.written ++ c.buffer
          buffer := buf
          rest := rest
          spells := by
            rw [← c.spells, hrest, List.flatten_cons, List.append_assoc]
          buffer_ne_nil := fun h => c.nil_not_mem (by rw [hrest, h]; exact List.mem_cons_self)
          nil_not_mem := fun h => c.nil_not_mem (by rw [hrest]; exact List.mem_cons_of_mem _ h) }

/-- A thread: the frames it has sent, the call it is in, and what it will send. -/
structure Thread where
  sent : List Body := []
  call : Option Call := none
  bodies : List Body

/-- What a thread may do. -/
inductive Act
  /-- Call `send_frame` with the next body. -/
  | call
  /-- `send` of the operating system takes a number of bytes. -/
  | send (n : ℕ)

/-- Call `send_frame`, if not in a call. -/
def Thread.begin (th : Thread) : Thread :=
  match th.call, th.bodies with
  | none, b :: bs =>
    match sendFrame b with
    | .error _ => { th with bodies := bs }
    | .ok c => { th with call := some c, bodies := bs }
  | _, _ => th

/-- One `send`, which takes a number of bytes of the buffer, and the bytes. -/
def Thread.send (th : Thread) (n : ℕ) : Thread × List UInt8 :=
  match th.call with
  | none => (th, [])
  | some c =>
    if n = 0 ∨ c.buffer.length < n then (th, [])
    else
      match c.after n with
      | some c' => ({ th with call := some c' }, c.buffer.take n)
      | none => ({ th with call := none, sent := th.sent ++ [c.body] }, c.buffer.take n)

/-- What a thread is after it has done something, and the bytes that have gone out. What it
cannot do does nothing. -/
def Thread.act (th : Thread) : Act → Thread × List UInt8
  | .call => (th.begin, [])
  | .send n => th.send n

/-- A socket that is shared by threads. -/
structure Shared (ι : Type) where
  /-- What has been sent, each byte with the thread that has sent it. -/
  stream : List (ι × UInt8) := []
  threads : ι → Thread

variable {ι : Type} [DecidableEq ι]

/-- One thread does something. -/
def Shared.step (s : Shared ι) (e : ι × Act) : Shared ι where
  stream := s.stream ++ ((s.threads e.1).act e.2).2.map (e.1, ·)
  threads := Function.update s.threads e.1 ((s.threads e.1).act e.2).1

/-- Threads that send given bodies on one socket. -/
def threads (programs : ι → List Body) : Machine (Shared ι) (ι × Act) Unit where
  init := { threads := fun t => { bodies := programs t } }
  step s e := (s.step e, ())

theorem next_threads (programs : ι → List Body) (s : Shared ι) (e : ι × Act) :
    (threads programs).next s e = s.step e := rfl

/-! ### What a thread does in one step -/

/-- What a thread has written of the frame it is sending. -/
def Thread.written (th : Thread) : List UInt8 := th.call.elim [] Call.written

/-- The frames that are not too large. -/
def accepted (bs : List Body) : List Body := bs.filter (·.1.length ≤ kFrameMaxBytes)

/-- The frames a thread has sent, is sending and will send. -/
def Thread.program (th : Thread) : List Body :=
  th.sent ++ th.call.toList.map Call.body ++ accepted th.bodies

/-- **The ways a thread moves on.** -/
inductive Thread.Moves (th : Thread) : Thread → List UInt8 → Prop
  | stay : Moves th th []
  | refuse {b : Body} {bs : List Body} (hcall : th.call = none) (hbodies : th.bodies = b :: bs)
      (hlarge : kFrameMaxBytes < b.1.length) : Moves th { th with bodies := bs } []
  | begin {b : Body} {bs : List Body} {c : Call} (hcall : th.call = none)
      (hbodies : th.bodies = b :: bs) (hsmall : b.1.length ≤ kFrameMaxBytes) (hbody : c.body = b)
      (hwritten : c.written = []) : Moves th { th with call := some c, bodies := bs } []
  | write {c c' : Call} {bs : List UInt8} (hcall : th.call = some c) (hbody : c'.body = c.body)
      (hwritten : c'.written = c.written ++ bs) (hne : bs ≠ []) :
      Moves th { th with call := some c' } bs
  | finish {c : Call} {bs : List UInt8} (hcall : th.call = some c)
      (hwritten : c.written ++ bs = frame c.body) (hne : bs ≠ []) :
      Moves th { th with call := none, sent := th.sent ++ [c.body] } bs

theorem Call.after_eq_some {c c' : Call} {n : ℕ} (hn : n ≤ c.buffer.length)
    (h : c.after n = some c') :
    c'.body = c.body ∧ c'.written = c.written ++ c.buffer.take n := by
  unfold Call.after at h
  split at h
  · obtain rfl := Option.some.inj h
    exact ⟨rfl, rfl⟩
  · split at h
    · cases h
    · obtain rfl := Option.some.inj h
      exact ⟨rfl, by rw [List.take_of_length_le (by omega)]⟩

theorem Call.after_eq_none {c : Call} {n : ℕ} (hn : n ≤ c.buffer.length) (h : c.after n = none) :
    c.written ++ c.buffer.take n = frame c.body := by
  unfold Call.after at h
  split at h
  · cases h
  · split at h
    · rename_i hrest
      rw [← c.spells, hrest, List.flatten_nil, List.append_nil,
        List.take_of_length_le (by omega)]
    · cases h

theorem Thread.moves_begin (th : Thread) : th.Moves th.begin [] := by
  unfold Thread.begin
  split
  · rename_i b bs hcall hbodies
    unfold sendFrame
    split_ifs with hlarge
    · exact .refuse hcall hbodies hlarge
    · exact .begin hcall hbodies (Nat.not_lt.mp hlarge) rfl rfl
  · exact .stay

theorem Thread.moves_send (th : Thread) (n : ℕ) : th.Moves (th.send n).1 (th.send n).2 := by
  unfold Thread.send
  split
  · exact .stay
  · rename_i c hcall
    split_ifs with hn
    · exact .stay
    · have hle : n ≤ c.buffer.length := by omega
      have hne : c.buffer.take n ≠ [] := by
        refine List.ne_nil_of_length_pos ?_
        rw [List.length_take]
        omega
      cases hafter : c.after n with
      | some c' =>
        obtain ⟨hbody, hwritten⟩ := Call.after_eq_some hle hafter
        exact .write hcall hbody hwritten hne
      | none => exact .finish hcall (Call.after_eq_none hle hafter) hne

theorem Thread.moves_act (th : Thread) : ∀ a : Act, th.Moves (th.act a).1 (th.act a).2
  | .call => th.moves_begin
  | .send n => th.moves_send n

namespace Thread.Moves

variable {th th' : Thread} {bs : List UInt8}

/-- A frame is sent, is being sent or will be sent, from the first step to the last. -/
theorem program_eq (h : th.Moves th' bs) : th'.program = th.program := by
  rcases h with _ | ⟨hcall, hbodies, hlarge⟩ | ⟨hcall, hbodies, hsmall, hbody, -⟩ |
    ⟨hcall, hbody, -, -⟩ | ⟨hcall, -, -⟩
  · rfl
  · have hrefused := Nat.not_le.mpr hlarge
    simp [program, hcall, hbodies, accepted, hrefused]
  · simp [program, hcall, hbodies, accepted, hsmall, hbody]
  · simp [program, hcall, hbody]
  · simp [program, hcall]

/-- Nothing goes out, or some of a frame goes out, or the rest of one. -/
theorem outcome (h : th.Moves th' bs) :
    (bs = [] ∧ th'.sent = th.sent ∧ th'.written = th.written) ∨
      bs ≠ [] ∧ ((th'.sent = th.sent ∧ th'.written = th.written ++ bs) ∨
        ∃ b, th'.sent = th.sent ++ [b] ∧ th'.written = [] ∧ th.written ++ bs = frame b) := by
  rcases h with _ | ⟨hcall, hbodies, hlarge⟩ | ⟨hcall, hbodies, hsmall, hbody, hwritten⟩ |
    ⟨hcall, hbody, hwritten, hne⟩ | ⟨hcall, hwritten, hne⟩
  · exact .inl ⟨rfl, rfl, rfl⟩
  · exact .inl ⟨rfl, rfl, rfl⟩
  · exact .inl ⟨rfl, rfl, by simp [written, hcall, hwritten]⟩
  · exact .inr ⟨hne, .inl ⟨rfl, by simp [written, hcall, hwritten]⟩⟩
  · exact .inr ⟨hne, .inr ⟨_, rfl, rfl, by simp [written, hcall, hwritten]⟩⟩

/-- What goes out is what a thread's frames are made of. -/
theorem spelt (h : th.Moves th' bs) :
    th'.sent.flatMap frame ++ th'.written = th.sent.flatMap frame ++ th.written ++ bs := by
  rcases h.outcome with ⟨rfl, hsent, hwritten⟩ | ⟨-, ⟨hsent, hwritten⟩ | ⟨b, hsent, hwritten, hb⟩⟩
  · simp [hsent, hwritten]
  · simp [hsent, hwritten]
  · simp [hsent, hwritten, ← hb]

end Thread.Moves

/-! ### Every run -/

section

variable {programs : ι → List Body} {es : List (ι × Act)}

theorem Shared.threads_step (s : Shared ι) (e : ι × Act) (t : ι) :
    (s.step e).threads t = if t = e.1 then ((s.threads e.1).act e.2).1 else s.threads t :=
  Function.update_apply ..

/-- **What is true of every run**: the bytes a thread has sent are its frames, one after the
other, and a part of the next; and no frame is forgotten. -/
structure Faithful (programs : ι → List Body) (s : Shared ι) : Prop where
  own_eq : ∀ t, own t s.stream = (s.threads t).sent.flatMap frame ++ (s.threads t).written
  program_eq : ∀ t, (s.threads t).program = accepted (programs t)

theorem Faithful.step {s : Shared ι} (h : Faithful programs s) (e : ι × Act) :
    Faithful programs (s.step e) := by
  have hmoves := (s.threads e.1).moves_act e.2
  constructor
  · intro t
    rw [Shared.threads_step, Shared.step, own_append, h.own_eq]
    split_ifs with ht
    · subst ht
      rw [own_map_self, hmoves.spelt]
    · rw [own_map_of_ne (Ne.symm ht), List.append_nil]
  · intro t
    rw [Shared.threads_step]
    split_ifs with ht
    · rw [hmoves.program_eq, h.program_eq, ht]
    · exact h.program_eq t

theorem faithful (n : ℕ) : Faithful programs ((threads programs).stateAt es n) := by
  refine Machine.invariant ?_ (fun s e h => h.step e) n
  constructor <;> intro t <;> rfl

/-! ### Exclusive runs -/

/-- What is sent is not sent while another thread is in the middle of a frame. -/
def Exclusive (s : Shared ι) (e : ι × Act) : Prop :=
  ((s.threads e.1).act e.2).2 ≠ [] → ∀ u, u ≠ e.1 → (s.threads u).written = []

/-- **What is true of a run that is exclusive**: the stream is a sequence of whole frames and
a part of at most one more. -/
structure Serial (s : Shared ι) (done : List (ι × Body)) (last : List (ι × UInt8)) : Prop where
  sent_eq : ∀ t, own t done = (s.threads t).sent
  stream_eq : s.stream = done.flatMap (tagged frame) ++ last
  last_eq : ∀ t, (s.threads t).written ≠ [] → last = (s.threads t).written.map (t, ·)
  last_nil : (∀ t, (s.threads t).written = []) → last = []

/-- Who sends sends what comes after the whole frames. -/
theorem Serial.last_of_exclusive {s : Shared ι} {done : List (ι × Body)} {last : List (ι × UInt8)}
    (h : Serial s done last) {t : ι} (hothers : ∀ u, u ≠ t → (s.threads u).written = []) :
    last = (s.threads t).written.map (t, ·) := by
  by_cases hw : (s.threads t).written = []
  · rw [hw]
    refine h.last_nil fun u => ?_
    rcases eq_or_ne u t with rfl | hu
    · exact hw
    · exact hothers u hu
  · exact h.last_eq t hw

theorem Serial.step {s : Shared ι} {done : List (ι × Body)} {last : List (ι × UInt8)}
    (h : Serial s done last) {e : ι × Act} (hex : Exclusive s e) :
    ∃ done' last', Serial (s.step e) done' last' := by
  obtain ⟨t, a⟩ := e
  have hmoves := (s.threads t).moves_act a
  have hstep (u : ι) : ((s.step (t, a)).threads u) =
      if u = t then ((s.threads t).act a).1 else s.threads u := Shared.threads_step s (t, a) u
  rcases hmoves.outcome with ⟨hnil, hsent, hwritten⟩ | ⟨hne, hout⟩
  · -- nothing goes out: every thread has sent and written what it had
    have hsame (u : ι) : ((s.step (t, a)).threads u).sent = (s.threads u).sent ∧
        ((s.step (t, a)).threads u).written = (s.threads u).written := by
      rw [hstep]
      split_ifs with hu
      · rw [hu]
        exact ⟨hsent, hwritten⟩
      · exact ⟨rfl, rfl⟩
    refine ⟨done, last, fun u => ?_, ?_, fun u => ?_, ?_⟩
    · rw [h.sent_eq, (hsame u).1]
    · rw [Shared.step, hnil, List.map_nil, List.append_nil, h.stream_eq]
    · rw [(hsame u).2]
      exact h.last_eq u
    · simp only [(hsame _).2]
      exact h.last_nil
  · have hothers := hex hne
    have hlast := h.last_of_exclusive hothers
    have hwritten_of_ne {u : ι} (hu : u ≠ t) : ((s.step (t, a)).threads u).written = [] := by
      rw [hstep, if_neg hu]
      exact hothers u hu
    rcases hout with ⟨hsent, hwritten⟩ | ⟨b, hsent, hwritten, hb⟩
    · refine ⟨done, last ++ ((s.threads t).act a).2.map (t, ·), fun u => ?_, ?_, fun u hu => ?_,
        fun hall => ?_⟩
      · rw [h.sent_eq, hstep]
        split_ifs with hu
        · rw [hu, hsent]
        · rfl
      · rw [Shared.step, h.stream_eq, List.append_assoc]
      · rcases eq_or_ne u t with rfl | hut
        · rw [hstep, if_pos rfl, hwritten, hlast, List.map_append]
        · exact absurd (hwritten_of_ne hut) hu
      · -- something has just been written
        have ht := hall t
        rw [hstep, if_pos rfl, hwritten] at ht
        exact absurd (List.append_eq_nil_iff.mp ht).2 hne
    · refine ⟨done ++ [(t, b)], [], fun u => ?_, ?_, fun u hu => ?_, fun _ => rfl⟩
      · rw [own_append, h.sent_eq, hstep]
        split_ifs with hu
        · rw [hu, hsent, own_cons_self, own_nil]
        · rw [own_cons_of_ne (Ne.symm hu), own_nil, List.append_nil]
      · rw [Shared.step, h.stream_eq, hlast, List.append_assoc, ← List.map_append, hb,
          List.flatMap_append, List.append_nil]
        simp [tagged]
      · rcases eq_or_ne u t with rfl | hut
        · rw [hstep, if_pos rfl] at hu
          exact absurd hwritten hu
        · exact absurd (hwritten_of_ne hut) hu

/-! ### What is received -/

/-- All calls have returned, and there are no more. -/
def Finished (s : Shared ι) : Prop := ∀ t, (s.threads t).call = none ∧ (s.threads t).bodies = []

/-- **What is received is what was sent.** The frames are whole in the stream, each thread's
in its order, and the receiver gets their bodies. -/
def Delivered (programs : ι → List Body) (s : Shared ι) : Prop :=
  ∃ done : List (ι × Body), (∀ t, own t done = accepted (programs t)) ∧
    s.stream = done.flatMap (tagged frame) ∧
    many recvFrame done.length (s.stream.map (·.2)) = .ok (done.map (·.2.1), [])

omit [DecidableEq ι] in
/-- A stream of whole frames is received. -/
theorem many_recvFrame {done : List (ι × Body)}
    (h : ∀ p ∈ done, p.2.1.length ≤ kFrameMaxBytes) :
    many recvFrame done.length ((done.flatMap (tagged frame)).map (·.2)) =
      .ok (done.map (·.2.1), []) := by
  have hbytes : (done.flatMap (tagged frame)).map (·.2) =
      bytesOf (done.flatMap fun p => [.block (frame p.2)]) := by
    simp [List.map_flatMap, map_snd_tagged, bytesOf, List.flatMap_assoc, Item.bytes]
  have hreads := Reads.many_map (L := fun p : ι × Body => [.block (frame p.2)])
    (g := fun p => p.2.1) fun p hp => by
      simpa [Item.bytes] using reads_recvFrame (h p hp)
  have hread := hreads []
  rwa [List.append_nil, ← hbytes] at hread

/-- What has been sent stays sent. -/
theorem stream_prefix {n m : ℕ} (h : n ≤ m) :
    ((threads programs).stateAt es n).stream <+: ((threads programs).stateAt es m).stream := by
  induction h with
  | refl => exact List.prefix_rfl
  | @step m _ ih =>
    refine ih.trans ?_
    cases he : es[m]? with
    | none => simp [Machine.stateAt_succ_of_none he]
    | some e =>
      rw [Machine.stateAt_succ he]
      exact List.prefix_append ..

/-- If the frames are whole in the end then nobody was ever interrupted. -/
theorem exclusive_of_delivered (h : Delivered programs ((threads programs).stateAt es es.length))
    {n : ℕ} {e : ι × Act} (he : es[n]? = some e) :
    Exclusive ((threads programs).stateAt es n) e := by
  intro hne u hu
  by_contra hw
  obtain ⟨done, hown, hstream, -⟩ := h
  have hlt : n < es.length := (List.getElem?_eq_some_iff.mp he).1
  have hfaithful : Faithful programs ((threads programs).stateAt es n) := faithful n
  -- the other thread is in a call, with something written and something left
  cases hcall : (((threads programs).stateAt es n).threads u).call with
  | none => simp [Thread.written, hcall] at hw
  | some c =>
    obtain ⟨b, bs, hbs⟩ := List.exists_cons_of_ne_nil hne
    obtain ⟨after, hafter⟩ : ((threads programs).stateAt es (n + 1)).stream <+:
        ((threads programs).stateAt es es.length).stream := stream_prefix hlt
    have hsplit : done.flatMap (tagged frame) =
        ((threads programs).stateAt es n).stream ++ (e.1, b) :: (bs.map (e.1, ·) ++ after) := by
      rw [← hstream, ← hafter, Machine.stateAt_succ he, next_threads, Shared.step, hbs,
        List.map_cons, List.append_assoc, List.cons_append]
    obtain ⟨k, hk⟩ := own_of_split frame hsplit (Ne.symm hu)
    have hprogram := hfaithful.program_eq u
    rw [hfaithful.own_eq, hown, ← hprogram, Thread.program, Thread.written, hcall] at hk
    rw [Thread.written, hcall] at hw
    have hleft : c.buffer ++ c.rest.flatten ≠ [] := fun h =>
      c.buffer_ne_nil (List.append_eq_nil_iff.mp h).1
    simp only [Option.toList_some, List.map_cons, List.map_nil, List.append_assoc,
      List.singleton_append, Option.elim_some] at hk hw
    exact flatMap_take_ne frame c.spells hw hleft k hk.symm

/-- **Threads that share a socket get by exactly if they take turns.** Once they are done, all
that was sent is received, whole, if and only if no thread has ever sent anything while another
was in the middle of a frame. -/
theorem delivered_iff_exclusive
    (hfinished : Finished ((threads programs).stateAt es es.length)) :
    Delivered programs ((threads programs).stateAt es es.length) ↔
      ∀ n e, es[n]? = some e → Exclusive ((threads programs).stateAt es n) e := by
  constructor
  · exact fun h n e he => exclusive_of_delivered h he
  · intro hex
    obtain ⟨done, last, hserial⟩ : ∃ done last,
        Serial ((threads programs).stateAt es es.length) done last := by
      refine Machine.invariant_of_step (P := fun s => ∃ done last, Serial s done last)
        (A := Exclusive) ⟨[], [], ?_⟩ ?_ hex es.length
      · exact ⟨fun _ => rfl, rfl, fun t ht => absurd rfl ht, fun _ => rfl⟩
      · rintro s e ⟨done, last, h⟩ hexe
        exact h.step hexe
    have hlast : last = [] := hserial.last_nil fun t => by
      rw [Thread.written, (hfinished t).1]
      rfl
    have hstream := hserial.stream_eq
    rw [hlast, List.append_nil] at hstream
    have hfaithful : Faithful programs ((threads programs).stateAt es es.length) := faithful _
    have hown (t : ι) : own t done = accepted (programs t) := by
      rw [hserial.sent_eq, ← hfaithful.program_eq t, Thread.program,
        (hfinished t).1, (hfinished t).2]
      simp [accepted]
    refine ⟨done, hown, hstream, ?_⟩
    rw [hstream]
    refine many_recvFrame fun p hp => ?_
    have hmem := mem_own hp
    rw [hown] at hmem
    exact of_decide_eq_true (List.mem_filter.mp hmem).2

end

/-! ### Two threads -/

/-- The body of a message. -/
def bodyOf (m : Wire.Message) : Body :=
  ⟨Wire.kProtocolVersion :: m.kind.toByte :: bytesOf (Wire.encPayload m), by simp⟩

/-- The loop has a group to dispatch to a worker whose ping the other thread is to answer. -/
def dispatchAndPong (loop : Bool) : List Body :=
  if loop then [bodyOf { kind := .dispatch }] else [bodyOf { kind := .pong }]

/-- The answer goes out between the length and the body of the dispatch. -/
def pongBetween : List (Bool × Act) :=
  [(true, .call), (true, .send 4), (false, .call), (false, .send 4), (false, .send 2),
    (true, .send 95)]

theorem finished_pongBetween :
    Finished ((threads dispatchAndPong).stateAt pongBetween pongBetween.length) := by
  rintro (_ | _) <;> exact ⟨rfl, rfl⟩

/-- The worker receives a body that nobody has sent, of a version there is not, and then fails. -/
theorem recvFrame_pongBetween :
    ∃ bytes, bytes = ((threads dispatchAndPong).stateAt pongBetween 6).stream.map (·.2) ∧
      Finished ((threads dispatchAndPong).stateAt pongBetween 6) ∧
      (∃ body rest, recvFrame bytes = .ok (body, rest) ∧
        body ≠ (bodyOf { kind := .dispatch }).1 ∧ body ≠ (bodyOf { kind := .pong }).1) ∧
      many recvFrame 2 bytes =
        .error ⟨.malformedFrame, "frame too short (zero or one byte)"⟩ := by
  refine ⟨_, rfl, finished_pongBetween, ⟨_, _, rfl, ?_, ?_⟩, rfl⟩
  · decide
  · decide

theorem not_delivered_pongBetween :
    ¬Delivered dispatchAndPong
      ((threads dispatchAndPong).stateAt pongBetween pongBetween.length) := by
  intro h
  -- the loop has sent four bytes of its frame when the answer is begun
  have hex := (delivered_iff_exclusive finished_pongBetween).mp h 3 (false, .send 4) rfl
  exact absurd (hex (by decide) true (by decide)) (by decide)

end Socket

end PrefillFabric
