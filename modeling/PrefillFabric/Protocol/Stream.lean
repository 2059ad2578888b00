import PrefillFabric.Protocol.Socket

/-!
# Frames in a stream of bytes

A connection is a stream of bytes. `send` and `recv` of the operating system transfer some of the
bytes they are asked for, and say how many; `send_all` and `recv_exact` call them until all has
been transferred, and `send_frame` and `recv_frame` are two of these calls each, one for the length
and one for the body.

How the operating system cuts up what it is given is arbitrary (`Os`). As long as it transfers
something each time (`Os.Transfers`) it makes no difference: what is received is what a reader of
the whole stream reads (`recvFrameBy_eq`), so that frames are received as they have been sent
(`framing`). Whatever it does, nothing is received that is not a frame (`of_recvFrameBy_eq_ok`).

The threads of `PrefillFabric.Protocol.Socket` are this sender, call by call (`acts_sendFrameBy`).
-/

namespace PrefillFabric

open Codec

namespace Socket

/-! ### The operating system -/

/-- **The operating system**: for every call, how many of a number of bytes it transfers. No number
is an error. -/
structure Os where
  answer : ℕ → ℕ → Option ℕ
  le : ∀ {i n k}, answer i n = some k → k ≤ n

/-- Something is transferred each time. -/
def Os.Transfers (os : Os) : Prop := ∀ i n, 0 < n → ∃ k, os.answer i n = some (k + 1)

theorem Os.Transfers.answer_ne {os : Os} (hos : os.Transfers) {i n : ℕ} (hn : 0 < n) :
    os.answer i n ≠ none ∧ os.answer i n ≠ some 0 := by
  obtain ⟨k, hk⟩ := hos i n hn
  simp [hk]

/-! ### Sending -/

/-- Send all of some data. Returned are the number of calls of the operating system so far and what
each of them has taken. -/
def sendAll (os : Os) (i : ℕ) : List UInt8 → Result Unit × ℕ × List (List UInt8)
  | [] => (.ok (), i, [])
  | b :: data =>
    match os.answer i (data.length + 1) with
    | none => (.error ⟨.ioFailure, "socket send failed"⟩, i + 1, [])
    | some 0 => (.error ⟨.ioFailure, "socket closed during send"⟩, i + 1, [])
    | some (k + 1) =>
      let p := sendAll os (i + 1) (data.drop k)
      (p.1, p.2.1, (b :: data.take k) :: p.2.2)
termination_by data => data.length

/-- Send a frame: the length in four bytes, and the body if that has worked. -/
def sendFrameBy (os : Os) (i : ℕ) (body : List UInt8) : Result Unit × ℕ × List (List UInt8) :=
  if kFrameMaxBytes < body.length then (.error ⟨.oversizedFrame, "frame too large"⟩, i, [])
  else
    match sendAll os i (leBytes 4 body.length) with
    | (.error e, j, sent) => (.error e, j, sent)
    | (.ok (), j, sent) =>
      let p := sendAll os j body
      (p.1, p.2.1, sent ++ p.2.2)

/-- Send frames, one after the other. -/
def sendFrames (os : Os) (i : ℕ) : List (List UInt8) → List (Result Unit) × List (List UInt8)
  | [] => ([], [])
  | body :: bodies =>
    let p := sendFrameBy os i body
    let q := sendFrames os p.2.1 bodies
    (p.1 :: q.1, p.2.2 ++ q.2)

/-! ### Receiving -/

/-- The receiving end of a connection: the calls of the operating system so far, and what is still
to be received. After that the connection is closed. -/
structure Conn where
  calls : ℕ := 0
  stream : List UInt8

/-- Receive exactly a number of bytes. What has been received when an error occurs is lost. -/
def recvExact (os : Os) : ℕ → Conn → Result (List UInt8) × Conn
  | 0, c => (.ok [], c)
  | n + 1, c =>
    match os.answer c.calls (n + 1) with
    | none => (.error ⟨.ioFailure, "socket recv failed"⟩, { c with calls := c.calls + 1 })
    | some k =>
      match c.stream.take k with
      | [] => (.error errClosed, { c with calls := c.calls + 1 })
      | b :: got =>
        let p := recvExact os (n - got.length) ⟨c.calls + 1, c.stream.drop k⟩
        (p.1.map (b :: got ++ ·), p.2)
termination_by n => n

/-- Receive a frame: the length, and as many bytes if it is one that can have been sent. -/
def recvFrameBy (os : Os) (c : Conn) : Result (List UInt8) × Conn :=
  match recvExact os 4 c with
  | (.error e, c) => (.error e, c)
  | (.ok hdr, c) =>
    if kFrameMaxBytes < ofLeBytes hdr then
      (.error ⟨.oversizedFrame, "incoming frame too large"⟩, c)
    else if ofLeBytes hdr < 2 then
      (.error ⟨.malformedFrame, "frame too short (zero or one byte)"⟩, c)
    else recvExact os (ofLeBytes hdr) c

/-- Receive a number of frames, one after the other. -/
def recvFrames (os : Os) : ℕ → Conn → List (Result (List UInt8)) × Conn
  | 0, c => ([], c)
  | n + 1, c =>
    let p := recvFrameBy os c
    let q := recvFrames os n p.2
    (p.1 :: q.1, q.2)

/-! ### What the loops do -/

section

variable {os : Os}

/-- **All is sent**, in parts that are not empty. -/
theorem sendAll_spec (hos : os.Transfers) (i : ℕ) (data : List UInt8) :
    ∃ j sent, sendAll os i data = (.ok (), j, sent) ∧ sent.flatten = data ∧ [] ∉ sent := by
  fun_induction sendAll os i data with
  | case1 i => exact ⟨i, [], rfl, rfl, List.not_mem_nil⟩
  | case2 i b data hnone => exact absurd hnone (hos.answer_ne (Nat.succ_pos _)).1
  | case3 i b data hzero => exact absurd hzero (hos.answer_ne (Nat.succ_pos _)).2
  | case4 i b data k hk p ih =>
    obtain ⟨j, sent, hsent, hflatten, hne⟩ := ih
    refine ⟨j, (b :: data.take k) :: sent, by simp only [p, hsent], ?_, ?_⟩
    · rw [List.flatten_cons, hflatten, List.cons_append, List.take_append_drop]
    · simpa using hne

/-- The calls of the operating system take no more than is left. -/
theorem length_le_of_take_eq {n k : ℕ} {c : Conn} (hk : os.answer c.calls (n + 1) = some k)
    {b : UInt8} {got : List UInt8} (hgot : c.stream.take k = b :: got) : got.length ≤ n := by
  have hle := os.le hk
  have hlen := congrArg List.length hgot
  rw [List.length_take, List.length_cons] at hlen
  omega

/-- **What is received is the next bytes**, whatever the operating system does. -/
theorem of_recvExact_eq_ok {n : ℕ} {c c' : Conn} {data : List UInt8}
    (h : recvExact os n c = (.ok data, c')) :
    data.length = n ∧ c.stream = data ++ c'.stream := by
  fun_induction recvExact os n c generalizing data with
  | case1 c =>
    obtain ⟨hdata, rfl⟩ := Prod.mk.inj h
    obtain rfl := Except.ok.inj hdata
    exact ⟨rfl, rfl⟩
  | case2 => cases h
  | case3 => cases h
  | case4 n c k hk b got hgot p =>
    rename_i ih
    obtain ⟨hdata, hrest⟩ := Prod.mk.inj h
    cases hp : p.1 with
    | error e =>
      rw [hp] at hdata
      cases hdata
    | ok tail =>
      rw [hp] at hdata
      obtain rfl := Except.ok.inj hdata
      obtain ⟨hlen, hstream⟩ := ih (Prod.ext hp hrest)
      have hle := length_le_of_take_eq hk hgot
      constructor
      · rw [List.length_append, hlen, List.length_cons]
        omega
      · rw [List.append_assoc, ← hstream, ← hgot, List.take_append_drop]

theorem map_take_append (e : ErrorInfo) (n : ℕ) (cs rest : List UInt8) :
    (take e (cs.length + n) (cs ++ rest)).map (·.1) =
      ((take e n rest).map (·.1)).map (cs ++ ·) := by
  simp only [take, List.length_append, Nat.add_lt_add_iff_left]
  split_ifs
  · rfl
  · simp [Except.map, List.take_length_add_append]

/-- **However it is cut up** it is received as a reader takes it. -/
theorem recvExact_eq_take (hos : os.Transfers) (n : ℕ) (c : Conn) :
    (recvExact os n c).1 = (take errClosed n c.stream).map (·.1) := by
  fun_induction recvExact os n c with
  | case1 c => rfl
  | case2 n c hnone => exact absurd hnone (hos.answer_ne (Nat.succ_pos n)).1
  | case3 n c k hk hgot =>
    -- something would have been received if there were anything
    rcases List.take_eq_nil_iff.mp hgot with rfl | hnil
    · exact absurd hk (hos.answer_ne (Nat.succ_pos n)).2
    · simp [hnil, take, Except.map]
  | case4 n c k hk b got hgot p ih =>
    have hle := length_le_of_take_eq hk hgot
    have hn : n + 1 = (b :: got).length + (n - got.length) := by
      rw [List.length_cons]
      omega
    rw [ih, ← map_take_append, ← hn, ← hgot, List.take_append_drop]

/-- The rest is left for the next call. -/
theorem recvExact_of_le (hos : os.Transfers) {n : ℕ} {c : Conn} (h : n ≤ c.stream.length) :
    ∃ j, recvExact os n c = (.ok (c.stream.take n), ⟨j, c.stream.drop n⟩) := by
  have hok : (recvExact os n c).1 = .ok (c.stream.take n) := by
    rw [recvExact_eq_take hos, take, if_neg (Nat.not_lt.mpr h)]
    rfl
  obtain ⟨-, hstream⟩ := of_recvExact_eq_ok (Prod.ext hok rfl)
  refine ⟨(recvExact os n c).2.calls, Prod.ext hok ?_⟩
  have hdrop := congrArg (List.drop n) hstream
  rw [List.drop_left' (by rw [List.length_take]; omega)] at hdrop
  rw [hdrop]

/-! ### Frames -/

/-- **Nothing is received that is not a frame**: in front of it there is its length, which is not
too small or too large. This is so whatever the operating system does. -/
theorem of_recvFrameBy_eq_ok {c : Conn} {body : List UInt8}
    (h : (recvFrameBy os c).1 = .ok body) :
    ∃ hdr rest, hdr.length = 4 ∧ c.stream = hdr ++ (body ++ rest) ∧
      ofLeBytes hdr = body.length ∧ 2 ≤ body.length ∧ body.length ≤ kFrameMaxBytes := by
  rw [recvFrameBy] at h
  cases hhdr : recvExact os 4 c with
  | mk r mid =>
    rw [hhdr] at h
    cases r with
    | error e => cases h
    | ok hdr =>
      dsimp only at h
      split_ifs at h with hlarge hsmall
      obtain ⟨hlen, hstream⟩ := of_recvExact_eq_ok hhdr
      obtain ⟨hbody, hrest⟩ := of_recvExact_eq_ok (Prod.ext h rfl)
      exact ⟨hdr, _, hlen, by rw [hstream, ← hrest], hbody.symm, by omega, by omega⟩

/-- What a reader makes of a stream. -/
theorem recvFrame_eq (bs : List UInt8) :
    recvFrame bs =
      if bs.length < 4 then .error errClosed
      else if kFrameMaxBytes < ofLeBytes (bs.take 4) then
        .error ⟨.oversizedFrame, "incoming frame too large"⟩
      else if ofLeBytes (bs.take 4) < 2 then
        .error ⟨.malformedFrame, "frame too short (zero or one byte)"⟩
      else take errClosed (ofLeBytes (bs.take 4)) (bs.drop 4) := by
  rw [recvFrame, bind_apply, word, map_apply, take]
  split_ifs with hshort hlarge hsmall
  · rfl
  · simp only [if_pos hlarge, fail]
  · simp only [if_neg hlarge, if_pos hsmall, fail]
  · simp only [if_neg hlarge, if_neg hsmall]

/-- **However it is cut up** a frame is received as a reader reads it, and where one is received
the rest is left for the next call. -/
theorem recvFrameBy_eq (hos : os.Transfers) (c : Conn) :
    (recvFrameBy os c).1 = (recvFrame c.stream).map (·.1) ∧
      ∀ body rest, recvFrame c.stream = .ok (body, rest) → (recvFrameBy os c).2.stream = rest := by
  rw [recvFrame_eq, recvFrameBy]
  rcases Nat.lt_or_ge c.stream.length 4 with hlt | hle
  · have herr := recvExact_eq_take hos 4 c
    rw [take, if_pos hlt] at herr
    cases hhdr : recvExact os 4 c with
    | mk r mid =>
      obtain rfl : r = .error errClosed := by rwa [hhdr] at herr
      rw [if_pos hlt]
      exact ⟨rfl, fun _ _ h => by cases h⟩
  · obtain ⟨j, hhdr⟩ := recvExact_of_le hos hle
    rw [hhdr, if_neg (Nat.not_lt.mpr hle)]
    dsimp only
    split_ifs
    · exact ⟨rfl, fun _ _ h => by cases h⟩
    · exact ⟨rfl, fun _ _ h => by cases h⟩
    · refine ⟨recvExact_eq_take hos _ _, fun body rest h => ?_⟩
      obtain ⟨hlen, hrest⟩ := take_eq_ok.mp h
      have henough : ofLeBytes (c.stream.take 4) ≤ (c.stream.drop 4).length := by
        rw [hrest, List.length_append]
        omega
      obtain ⟨j', hbody⟩ := recvExact_of_le hos (c := ⟨j, c.stream.drop 4⟩) henough
      rw [hbody, ← hlen]
      exact (congrArg (List.drop body.length) hrest).trans (List.drop_left' rfl)

/-- **Frames are received** one after the other. -/
theorem recvFrames_frames (hos : os.Transfers) {bodies : List Body}
    (h : ∀ b ∈ bodies, b.1.length ≤ kFrameMaxBytes) {c : Conn} {rest : List UInt8}
    (hstream : c.stream = bodies.flatMap frame ++ rest) :
    (recvFrames os bodies.length c).1 = bodies.map (.ok ·.1) ∧
      (recvFrames os bodies.length c).2.stream = rest := by
  induction bodies generalizing c with
  | nil => exact ⟨rfl, hstream⟩
  | cons b bodies ih =>
    rw [List.flatMap_cons, List.append_assoc] at hstream
    have hread : recvFrame c.stream = .ok (b.1, bodies.flatMap frame ++ rest) := by
      rw [hstream]
      exact reads_recvFrame (h b List.mem_cons_self) _
    obtain ⟨hbody, hrest⟩ := recvFrameBy_eq hos c
    rw [hread] at hbody
    obtain ⟨hbodies, hend⟩ := ih (fun x hx => h x (List.mem_cons_of_mem b hx))
      (hrest b.1 _ hread)
    refine ⟨?_, hend⟩
    rw [List.length_cons, recvFrames, hbody, hbodies]
    rfl

/-- A frame is sent, the length in parts and the body in parts. -/
theorem sendFrameBy_spec (hos : os.Transfers) (i : ℕ) {b : Body}
    (h : b.1.length ≤ kFrameMaxBytes) :
    ∃ j first last, sendFrameBy os i b.1 = (.ok (), j, first ++ last) ∧
      first.flatten = header b ∧ last.flatten = b.1 ∧ [] ∉ first ∧ [] ∉ last := by
  obtain ⟨j, first, hsent, hfirst, hne⟩ := sendAll_spec hos i (header b)
  obtain ⟨j', last, hsent', hlast, hne'⟩ := sendAll_spec hos j b.1
  refine ⟨j', first, last, ?_, hfirst, hlast, hne, hne'⟩
  rw [header] at hsent
  rw [sendFrameBy, if_neg (Nat.not_lt.mpr h), hsent]
  simp only [hsent']

/-- **Frames are sent** one after the other. -/
theorem sendFrames_spec (hos : os.Transfers) (i : ℕ) {bodies : List Body}
    (h : ∀ b ∈ bodies, b.1.length ≤ kFrameMaxBytes) :
    (sendFrames os i (bodies.map (·.1))).1 = bodies.map (fun _ => .ok ()) ∧
      (sendFrames os i (bodies.map (·.1))).2.flatten = bodies.flatMap frame := by
  induction bodies generalizing i with
  | nil => exact ⟨rfl, rfl⟩
  | cons b bodies ih =>
    obtain ⟨j, first, last, hsent, hfirst, hlast, -⟩ :=
      sendFrameBy_spec hos i (h b List.mem_cons_self)
    obtain ⟨hok, hframes⟩ := ih j fun x hx => h x (List.mem_cons_of_mem b hx)
    simp only [List.map_cons, sendFrames, hsent, hok, List.flatten_append, hfirst, hlast, hframes,
      List.flatMap_cons, frame, and_self]

end

/-- **Framing.** However the operating system cuts up what is sent and what is received, the
frames that are sent are received, and nothing is left over. And whatever it does to a stream of
any bytes, what is received has its length in front of it. -/
theorem framing {outgoing incoming : Os} (hout : outgoing.Transfers) (hin : incoming.Transfers)
    (bodies : List Body) (h : ∀ b ∈ bodies, b.1.length ≤ kFrameMaxBytes) :
    (∃ sent, sendFrames outgoing 0 (bodies.map (·.1)) = (bodies.map fun _ => .ok (), sent) ∧
      ∃ c, recvFrames incoming bodies.length ⟨0, sent.flatten⟩ = (bodies.map (.ok ·.1), c) ∧
        c.stream = []) ∧
    ∀ (os : Os) (c : Conn) (body : List UInt8), (recvFrameBy os c).1 = .ok body →
      ∃ hdr rest, hdr.length = 4 ∧ c.stream = hdr ++ (body ++ rest) ∧
        ofLeBytes hdr = body.length ∧ 2 ≤ body.length ∧ body.length ≤ kFrameMaxBytes := by
  refine ⟨⟨_, Prod.ext (sendFrames_spec hout 0 h).1 rfl, ?_⟩,
    fun os c body => of_recvFrameBy_eq_ok⟩
  have hstream : (Conn.mk 0 (sendFrames outgoing 0 (bodies.map (·.1))).2.flatten).stream =
      bodies.flatMap frame ++ [] := by
    rw [List.append_nil]
    exact (sendFrames_spec hout 0 h).2
  obtain ⟨hbodies, hrest⟩ := recvFrames_frames hin h hstream
  exact ⟨_, Prod.ext hbodies rfl, hrest⟩

/-- One byte at a time. -/
def Os.bytewise : Os where
  answer _ n := some (min 1 n)
  le h := by
    obtain rfl := Option.some.inj h
    exact Nat.min_le_right ..

/-- Whatever it is asked for. -/
def Os.whole : Os where
  answer _ n := some n
  le h := (Option.some.inj h).ge

theorem Os.transfers_bytewise : Os.bytewise.Transfers := fun _ _ hn =>
  ⟨0, congrArg some (Nat.min_eq_left hn)⟩

theorem Os.transfers_whole : Os.whole.Transfers := fun _ n hn =>
  ⟨n - 1, congrArg some (Nat.succ_pred_eq_of_pos hn).symm⟩

theorem framing_pings :
    ∃ sent, sendFrames .whole 0 [[1, 18], [1, 19, 0]] = ([.ok (), .ok ()], sent) ∧
      ∃ c, recvFrames .bytewise 2 ⟨0, sent.flatten⟩ = ([.ok [1, 18], .ok [1, 19, 0]], c) ∧
        c.stream = [] :=
  (framing Os.transfers_whole Os.transfers_bytewise
    [⟨[1, 18], by decide⟩, ⟨[1, 19, 0], by decide⟩] (by decide)).1

/-! ### The same sender, call by call -/

/-- What a thread is after it has done some things, and the bytes that have gone out. -/
def Thread.acts (th : Thread) : List Act → Thread × List UInt8
  | [] => (th, [])
  | a :: as => (((th.act a).1.acts as).1, (th.act a).2 ++ ((th.act a).1.acts as).2)

theorem Thread.acts_append (th : Thread) (as as' : List Act) :
    th.acts (as ++ as') =
      (((th.acts as).1.acts as').1, (th.acts as).2 ++ ((th.acts as).1.acts as').2) := by
  induction as generalizing th with
  | nil => rfl
  | cons a as ih => simp only [List.cons_append, acts, ih, List.append_assoc]

/-- A call goes on or returns. -/
def Thread.resume (th : Thread) (b : Body) : Option Call → Thread
  | some c => { th with call := some c }
  | none => { th with call := none, sent := th.sent ++ [b] }

theorem Thread.send_eq_resume {th : Thread} {c : Call} (hcall : th.call = some c) {n : ℕ}
    (hpos : 0 < n) (hle : n ≤ c.buffer.length) :
    th.send n = (th.resume c.body (c.after n), c.buffer.take n) := by
  rw [send, hcall]
  dsimp only
  rw [if_neg (by omega)]
  cases c.after n <;> rfl

/-- What a call is when its buffer has been taken does not depend on how. -/
theorem Call.after_add {c c' : Call} {m n : ℕ} (hm : m < c.buffer.length)
    (h : c.after m = some c') (hn : m + n = c.buffer.length) :
    c'.body = c.body ∧ c'.buffer = c.buffer.drop m ∧ c'.after n = c.after (m + n) := by
  obtain ⟨body, written, buffer, rest, hspells, hne, hnil⟩ := c
  dsimp only at hm hn
  rw [after, dif_pos hm] at h
  obtain rfl := Option.some.inj h
  have hle : buffer.length ≤ n + m := by omega
  refine ⟨rfl, rfl, ?_⟩
  cases rest <;> simp [after, hn, hle]

/-- **A buffer is sent in parts** as it is sent at once. -/
theorem Thread.acts_sends {parts : List (List UInt8)} (hne : [] ∉ parts) {th : Thread} {c : Call}
    (hcall : th.call = some c) (hparts : parts.flatten = c.buffer) :
    th.acts (parts.map fun part => .send part.length) = th.send c.buffer.length := by
  induction parts generalizing th c with
  | nil => exact absurd hparts.symm c.buffer_ne_nil
  | cons part parts ih =>
    obtain ⟨hpart, hparts'⟩ := not_or.mp (List.mem_cons.not.mp hne)
    have hpos : 0 < part.length := List.length_pos_iff.mpr (Ne.symm hpart)
    rw [List.flatten_cons] at hparts
    have hlen := congrArg List.length hparts
    rw [List.length_append] at hlen
    have hsend := send_eq_resume hcall hpos (by omega)
    rcases parts with _ | ⟨next, parts⟩
    · rw [List.flatten_nil, List.length_nil, Nat.add_zero] at hlen
      rw [← hlen]
      simp [acts, act]
    · -- more of the buffer is left than the first part
      have hnext : 0 < ((next :: parts).flatten).length := by
        have hne' : next ≠ [] := fun h => hparts' (h ▸ List.mem_cons_self)
        rw [List.flatten_cons, List.length_append]
        exact Nat.add_pos_left (List.length_pos_iff.mpr hne') _
      have hlt : part.length < c.buffer.length := by omega
      cases hafter : c.after part.length with
      | none =>
        rw [Call.after, dif_pos hlt] at hafter
        cases hafter
      | some c' =>
        obtain ⟨hbody, hbuffer, hrest⟩ := Call.after_add hlt hafter hlen
        have hflatten : (next :: parts).flatten = c'.buffer := by
          rw [hbuffer, ← hparts, List.drop_left' rfl]
        rw [hafter, resume] at hsend
        have htail := ih hparts' (rfl : ({ th with call := some c' } : Thread).call = _) hflatten
        rw [← hflatten, send_eq_resume rfl hnext (by rw [hflatten]), hbody, hrest, hlen] at htail
        rw [List.map_cons, acts, act, hsend, htail, send_eq_resume hcall (by omega) le_rfl]
        refine Prod.ext ?_ ?_
        · cases c.after c.buffer.length <;> rfl
        · dsimp only
          rw [hflatten, List.take_length, List.take_length, hbuffer, List.take_append_drop]

/-- A call that has sent a buffer goes on with the next one. -/
theorem Call.after_length {c : Call} {buf : List UInt8} {rest : List (List UInt8)}
    (h : c.rest = buf :: rest) :
    ∃ c', c.after c.buffer.length = some c' ∧ c'.body = c.body ∧ c'.buffer = buf ∧
      c'.rest = rest := by
  obtain ⟨body, written, buffer, _, hspells, hne, hnil⟩ := c
  obtain rfl := h
  rw [after, dif_neg (Nat.lt_irrefl _)]
  exact ⟨_, rfl, rfl, rfl, rfl⟩

/-- A call that has sent its last buffer returns. -/
theorem Call.after_length_of_nil {c : Call} (h : c.rest = []) :
    c.after c.buffer.length = none := by
  obtain ⟨body, written, buffer, _, hspells, hne, hnil⟩ := c
  obtain rfl := h
  rw [after, dif_neg (Nat.lt_irrefl _)]

/-- **The threads send as the loops do.** A thread that calls `send_frame` and then sends what the
operating system takes, call by call, has sent a frame when the loops have. -/
theorem acts_sendFrameBy {os : Os} (hos : os.Transfers) (i : ℕ) {th : Thread} {b : Body}
    {bodies : List Body} (hcall : th.call = none) (hbodies : th.bodies = b :: bodies)
    (h : b.1.length ≤ kFrameMaxBytes) :
    ∃ j sent, sendFrameBy os i b.1 = (.ok (), j, sent) ∧
      th.acts (.call :: sent.map fun part => .send part.length) =
        ({ th with sent := th.sent ++ [b], bodies }, frame b) := by
  obtain ⟨j, first, last, hsend, hheader, hbody, hfirst, hlast⟩ := sendFrameBy_spec hos i h
  refine ⟨j, first ++ last, hsend, ?_⟩
  obtain ⟨c, hc, hcbody, hbuffer, hrest⟩ : ∃ c, sendFrame b = .ok c ∧ c.body = b ∧
      c.buffer = header b ∧ c.rest = [b.1] :=
    ⟨_, if_neg (Nat.not_lt.mpr h), rfl, rfl, rfl⟩
  have hbegin : th.begin = { th with call := some c, bodies } := by
    rw [Thread.begin, hcall, hbodies]
    dsimp only
    rw [hc]
  obtain ⟨c', hafter, hbody', hbuffer', hrest'⟩ := Call.after_length hrest
  have hpos := List.length_pos_iff.mpr c.buffer_ne_nil
  have hpos' := List.length_pos_iff.mpr c'.buffer_ne_nil
  -- the length, and then the body
  rw [Thread.acts, Thread.act, hbegin, List.map_append, Thread.acts_append,
    Thread.acts_sends hfirst rfl (hheader.trans hbuffer.symm),
    Thread.send_eq_resume rfl hpos le_rfl, hafter, Thread.resume,
    Thread.acts_sends hlast rfl (hbody.trans hbuffer'.symm),
    Thread.send_eq_resume rfl hpos' le_rfl, Call.after_length_of_nil hrest', Thread.resume]
  simp [hbuffer, hbuffer', hbody', hcbody, hcall, frame]

end Socket

end PrefillFabric
