import ProxyPP.Bytes
import ProxyPP.Lib.Program

/-!
# ProxyPP.Http.Peer — sockets, `ReadSomeFromPeer` and `WriteToPeer`

The outside of a session is scripted.  A socket carries the outcomes of its next reads (`incoming`;
behind the script the peer is silent, or at EOF for good if `atEof`) and of its next writes
(`writes`; every write behind the script succeeds).  A read that the script does not answer leaves
the coroutine suspended (`Stop.blocked`).

Bytes carry their provenance as ghost data: an `Octet` names the connections it was made from, and
every accepted write is logged as a `Delivery` with the connection it went to.  No branch reads it.

A forwarding loop works on a `Link`: the read buffer it drains and its two sockets.  `Moved` is the
step relation of the loops: nothing lost, nothing duplicated between the buffer, the source and the
target.  `Cut` is what is left of it after a failed write.
-/

namespace ProxyPP.Http

open ProxyPP ProxyPP.Lib

/-! ## Definitions -/

/-- Why a coroutine did not return: an operation that never completes, the end of the observation
inside a loop, or an exception. -/
inductive Stop
  | blocked
  | outOfFuel
  | thrown (what : Bytes)
  deriving DecidableEq, Repr

/-- A byte and (ghost) the numbers of the connections it was made from. -/
structure Octet where
  val : UInt8
  origins : List ℕ
  deriving DecidableEq, Repr

/-- The plain bytes of a buffer. -/
def text (buffer : List Octet) : Bytes := buffer.map Octet.val

structure Endpoint where
  address : Bytes
  port : ℕ
  deriving DecidableEq, Repr

/-- A connection: its (ghost) number and the endpoint it was opened to. -/
structure Connection where
  id : ℕ
  endpoint : Endpoint
  deriving DecidableEq, Repr

/-- The error codes `ReadSomeFromPeer` tells apart. -/
inductive ReadError
  | eof
  | operationAborted
  | other
  deriving DecidableEq, Repr

/-- The result of one `async_read_some`: error code and bytes read. -/
structure ReadOutcome where
  ec : Option ReadError
  bytes : Bytes
  deriving DecidableEq, Repr

/-- The result of one `async_write`: all bytes, or an error after `accepted` of them. -/
inductive WriteOutcome
  | ok
  | failed (accepted : ℕ)
  deriving DecidableEq, Repr

/-- One write operation as the target received it. -/
structure Delivery where
  connection : Connection
  octets : List Octet
  deriving DecidableEq, Repr

structure Socket where
  isOpen : Bool
  connection : Connection
  incoming : List ReadOutcome
  atEof : Bool
  writes : List WriteOutcome
  sent : List Delivery
  deriving DecidableEq, Repr

structure ReadSomeResult where
  bytesRead : ℕ
  eof : Bool
  deriving DecidableEq, Repr

/-- `read_buffer`, `from_peer.sock` and `target_peer.sock` of a forwarding function. -/
structure Link where
  readBuffer : List Octet
  fromPeer : Socket
  targetPeer : Socket
  deriving DecidableEq, Repr

/-- `async_read_some` -/
def asyncReadSome : EStateM Stop Socket ReadOutcome := fun s =>
  if s.isOpen then
    match s.incoming with
    | r :: rest => .ok r { s with incoming := rest }
    | [] => if s.atEof then .ok ⟨some .eof, []⟩ s else .error .blocked s
  else .ok ⟨some .other, []⟩ s

/-- `asio::async_write`: whether it failed, and the number of bytes written. -/
def asyncWrite (octets : List Octet) : EStateM Stop Socket (Bool × ℕ) := fun s =>
  if s.isOpen then
    match s.writes with
    | .failed n :: rest =>
      .ok (true, n) { s with writes := rest, sent := s.sent ++ [⟨s.connection, octets.take n⟩] }
    | .ok :: rest =>
      .ok (false, octets.length)
        { s with writes := rest, sent := s.sent ++ [⟨s.connection, octets⟩] }
    | [] =>
      .ok (false, octets.length)
        { s with writes := [], sent := s.sent ++ [⟨s.connection, octets⟩] }
  else .ok (true, 0) s

/-- The octets of bytes received on `c`. -/
def received (c : Connection) (bytes : Bytes) : List Octet := bytes.map (fun b => ⟨b, [c.id]⟩)

/-- `buffer.commit` of bytes just read from the source. -/
def commit (bytes : Bytes) : EStateM Stop Link PUnit :=
  modify fun l => { l with readBuffer := l.readBuffer ++ received l.fromPeer.connection bytes }

def readSomeFromPeer : EStateM Stop Link (Option ReadSomeResult) := do
  let r ← zoom Link.fromPeer (fun s l => { l with fromPeer := s }) asyncReadSome
  match r.ec with
  | some .eof => do
    commit r.bytes
    pure (some ⟨r.bytes.length, true⟩)
  | some .operationAborted => do
    commit r.bytes
    pure none
  | some .other => pure none
  | none =>
    if r.bytes.length = 0 then pure none
    else do
      commit r.bytes
      pure (some ⟨r.bytes.length, false⟩)

def writeToPeer (bytesToWrite : ℕ) : EStateM Stop Link (Option ℕ) := do
  let l ← get
  let (ec, bytesWritten) ← zoom Link.targetPeer (fun s l => { l with targetPeer := s })
    (asyncWrite (l.readBuffer.take bytesToWrite))
  if ec then pure none
  else if bytesWritten ≠ bytesToWrite then pure none
  else do
    modify fun l => { l with readBuffer := l.readBuffer.drop bytesWritten }
    pure (some bytesWritten)

/-! ## What a link has moved -/

/-- The octets a target has accepted. -/
def Socket.sentOctets (s : Socket) : List Octet := s.sent.flatMap Delivery.octets

/-- The bytes `ReadSomeFromPeer` commits on an outcome. -/
def ReadOutcome.delivered (r : ReadOutcome) : Bytes := if r.ec = some .other then [] else r.bytes

/-- The bytes the script of a socket still delivers. -/
def Socket.stream (s : Socket) : Bytes := s.incoming.flatMap ReadOutcome.delivered

/-- From `l` to `l'` the target accepted `tx` and the source delivered `rx`, and nothing else. -/
structure Transfer (l l' : Link) (tx rx : List Octet) : Prop where
  sent : ∃ ds, l'.targetPeer.sent = l.targetPeer.sent ++ ds ∧
    (∀ d ∈ ds, d.connection = l.targetPeer.connection) ∧ ds.flatMap Delivery.octets = tx
  stream : l.fromPeer.stream = text rx ++ l'.fromPeer.stream
  origins : ∀ o ∈ rx, o.origins = [l.fromPeer.connection.id]
  fromPeer : l'.fromPeer = { l.fromPeer with incoming := l'.fromPeer.incoming }
  targetPeer : l'.targetPeer =
    { l.targetPeer with writes := l'.targetPeer.writes, sent := l'.targetPeer.sent }
  kept : ∀ o ∈ tx ++ l'.readBuffer, o ∈ l.readBuffer ++ rx

/-- A transfer in which the read buffer accounts for every octet. -/
structure Moved (l l' : Link) (tx rx : List Octet) : Prop extends Transfer l l' tx rx where
  buffer : tx ++ l'.readBuffer = l.readBuffer ++ rx

/-- A transfer after which the target has a prefix of what was there to send. -/
structure Cut (l l' : Link) (tx rx : List Octet) : Prop extends Transfer l l' tx rx where
  front : tx <+: l.readBuffer ++ rx

/-! ### Text -/

@[simp] theorem text_nil : text [] = [] := rfl

@[simp] theorem text_append (a b : List Octet) : text (a ++ b) = text a ++ text b :=
  List.map_append

@[simp] theorem length_text (a : List Octet) : (text a).length = a.length := List.length_map _

theorem text_take (a : List Octet) (n : ℕ) : text (a.take n) = (text a).take n := List.map_take

@[simp] theorem text_received (c : Connection) (bytes : Bytes) :
    text (received c bytes) = bytes := by
  rw [text, received, List.map_map]; exact List.map_id bytes

theorem origins_of_mem_received {c : Connection} {bytes : Bytes} {o : Octet}
    (h : o ∈ received c bytes) : o.origins = [c.id] := by
  obtain ⟨b, -, rfl⟩ := List.mem_map.mp h
  rfl

/-! ### `Transfer`, `Moved` and `Cut` compose -/

theorem Transfer.refl (l : Link) : Transfer l l [] [] :=
  ⟨⟨[], by simp, by simp, rfl⟩, rfl, by simp, rfl, rfl, by simp⟩

theorem Transfer.trans {l l₁ l₂ : Link} {tx₁ tx₂ rx₁ rx₂ : List Octet} (h : Transfer l l₁ tx₁ rx₁)
    (h' : Transfer l₁ l₂ tx₂ rx₂) : Transfer l l₂ (tx₁ ++ tx₂) (rx₁ ++ rx₂) := by
  obtain ⟨ds, hds, hc, htx⟩ := h.sent
  obtain ⟨ds', hds', hc', htx'⟩ := h'.sent
  have hconn : l₁.targetPeer.connection = l.targetPeer.connection := by rw [h.targetPeer]
  have hfrom : l₁.fromPeer.connection = l.fromPeer.connection := by rw [h.fromPeer]
  refine ⟨⟨ds ++ ds', ?_, ?_, ?_⟩, ?_, ?_, ?_, ?_, ?_⟩
  · rw [hds', hds, List.append_assoc]
  · intro d hd
    rcases List.mem_append.mp hd with hd | hd
    · exact hc d hd
    · exact (hc' d hd).trans hconn
  · rw [List.flatMap_append, htx, htx']
  · rw [h.stream, h'.stream, text_append, List.append_assoc]
  · intro o ho
    rcases List.mem_append.mp ho with ho | ho
    · exact h.origins o ho
    · rw [h'.origins o ho, hfrom]
  · rw [h'.fromPeer, h.fromPeer]
  · rw [h'.targetPeer, h.targetPeer]
  · intro o ho
    have h1 := h.kept o
    have h2 := h'.kept o
    simp only [List.mem_append] at h1 h2 ho ⊢
    tauto

section Frame

variable {l l' : Link} {tx rx : List Octet} (h : Transfer l l' tx rx)

include h

theorem Transfer.from_connection : l'.fromPeer.connection = l.fromPeer.connection := by
  rw [h.fromPeer]

theorem Transfer.from_sent : l'.fromPeer.sent = l.fromPeer.sent := by rw [h.fromPeer]

theorem Transfer.target_connection : l'.targetPeer.connection = l.targetPeer.connection := by
  rw [h.targetPeer]

end Frame

theorem Transfer.sentOctets {l l' : Link} {tx rx : List Octet} (h : Transfer l l' tx rx) :
    l'.targetPeer.sentOctets = l.targetPeer.sentOctets ++ tx := by
  obtain ⟨ds, hds, -, htx⟩ := h.sent
  rw [Socket.sentOctets, hds, List.flatMap_append, htx]; rfl

theorem Moved.refl (l : Link) : Moved l l [] [] := ⟨Transfer.refl l, by simp⟩

theorem Moved.trans {l l₁ l₂ : Link} {tx₁ tx₂ rx₁ rx₂ : List Octet} (h : Moved l l₁ tx₁ rx₁)
    (h' : Moved l₁ l₂ tx₂ rx₂) : Moved l l₂ (tx₁ ++ tx₂) (rx₁ ++ rx₂) := by
  refine ⟨h.toTransfer.trans h'.toTransfer, ?_⟩
  rw [List.append_assoc, h'.buffer, ← List.append_assoc, h.buffer, List.append_assoc]

theorem Moved.trans_cut {l l₁ l₂ : Link} {tx₁ tx₂ rx₁ rx₂ : List Octet} (h : Moved l l₁ tx₁ rx₁)
    (h' : Cut l₁ l₂ tx₂ rx₂) : Cut l l₂ (tx₁ ++ tx₂) (rx₁ ++ rx₂) := by
  refine ⟨h.toTransfer.trans h'.toTransfer, ?_⟩
  rw [← List.append_assoc, ← h.buffer, List.append_assoc]
  exact (List.prefix_append_right_inj tx₁).mpr h'.front

theorem Moved.cut {l l' : Link} {tx rx : List Octet} (h : Moved l l' tx rx) : Cut l l' tx rx :=
  ⟨h.toTransfer, ⟨l'.readBuffer, h.buffer⟩⟩

/-- The stream still to be forwarded: what is buffered and what the source delivers. -/
def Link.ahead (l : Link) : Bytes := text l.readBuffer ++ l.fromPeer.stream

/-- **Conservation**: what the target accepted comes off the front of what was ahead. -/
theorem Moved.ahead {l l' : Link} {tx rx : List Octet} (h : Moved l l' tx rx) :
    l.ahead = text tx ++ l'.ahead := by
  have hb := congrArg text h.buffer
  rw [text_append, text_append] at hb
  rw [Link.ahead, h.stream, ← List.append_assoc, ← hb, Link.ahead, List.append_assoc]

theorem Cut.ahead {l l' : Link} {tx rx : List Octet} (h : Cut l l' tx rx) :
    text tx <+: l.ahead := by
  obtain ⟨rest, hrest⟩ := h.front
  have hb := congrArg text hrest
  rw [text_append, text_append] at hb
  refine ⟨text rest ++ l'.fromPeer.stream, ?_⟩
  rw [Link.ahead, h.stream, ← List.append_assoc, ← List.append_assoc, hb]

/-! ### The two operations -/

/-- The link after the next outcome of the source was taken from its script. -/
def Link.taken (l : Link) (rest : List ReadOutcome) : Link :=
  { l with fromPeer := { l.fromPeer with incoming := rest } }

/-- The link after `bytes` were also committed to the read buffer. -/
def Link.committed (l : Link) (rest : List ReadOutcome) (bytes : Bytes) : Link :=
  { l.taken rest with readBuffer := l.readBuffer ++ received l.fromPeer.connection bytes }

/-- `ReadSomeFromPeer` on a scripted outcome, branch by branch. -/
theorem readSomeFromPeer_cons {l : Link} {r : ReadOutcome} {rest : List ReadOutcome}
    (hopen : l.fromPeer.isOpen = true) (hin : l.fromPeer.incoming = r :: rest) :
    readSomeFromPeer l = match r.ec with
      | some .eof => .ok (some ⟨r.bytes.length, true⟩) (l.committed rest r.bytes)
      | some .operationAborted => .ok none (l.committed rest r.bytes)
      | some .other => .ok none (l.taken rest)
      | none => if r.bytes.length = 0 then .ok none (l.taken rest)
          else .ok (some ⟨r.bytes.length, false⟩) (l.committed rest r.bytes) := by
  have hread : zoom Link.fromPeer (fun s l => { l with fromPeer := s }) asyncReadSome l
      = .ok r (l.taken rest) := by
    refine zoom_ok ?_
    rw [asyncReadSome, if_pos hopen, hin]
  rw [readSomeFromPeer, bind_ok hread]
  rcases r with ⟨_ | _ | _ | _, bytes⟩
  · by_cases hb : bytes.length = 0
    · simp only [if_pos hb]; rfl
    · simp only [if_neg hb]; rfl
  · rfl
  · rfl
  · rfl

/-- `ReadSomeFromPeer` behind the script, or on a closed socket. -/
theorem readSomeFromPeer_nil {l : Link} (h : l.fromPeer.isOpen = true → l.fromPeer.incoming = []) :
    readSomeFromPeer l = if l.fromPeer.isOpen then
      if l.fromPeer.atEof then .ok (some ⟨0, true⟩) l else .error .blocked l
    else .ok none l := by
  have hl : { l with fromPeer := l.fromPeer } = l := rfl
  by_cases hopen : l.fromPeer.isOpen = true
  · by_cases heof : l.fromPeer.atEof = true
    · have hread : zoom Link.fromPeer (fun s l => { l with fromPeer := s }) asyncReadSome l
          = .ok ⟨some .eof, []⟩ l := by
        refine zoom_ok ?_
        rw [asyncReadSome, if_pos hopen, h hopen]
        exact if_pos heof
      rw [readSomeFromPeer, bind_ok hread, if_pos hopen, if_pos heof]
      show EStateM.Result.ok _ { l with readBuffer := l.readBuffer ++ [] } = _
      rw [List.append_nil]
      rfl
    · have hread : zoom Link.fromPeer (fun s l => { l with fromPeer := s }) asyncReadSome l
          = .error .blocked l := by
        unfold zoom
        rw [asyncReadSome, if_pos hopen, h hopen]
        simp only [if_neg heof]
      rw [readSomeFromPeer, bind_error hread, if_pos hopen, if_neg heof]
  · have hread : zoom Link.fromPeer (fun s l => { l with fromPeer := s }) asyncReadSome l
        = .ok ⟨some .other, []⟩ l := by
      refine zoom_ok ?_
      rw [asyncReadSome, if_neg hopen]
    rw [readSomeFromPeer, bind_ok hread, if_neg hopen]
    rfl

theorem moved_committed {l : Link} {r : ReadOutcome} {rest : List ReadOutcome}
    (hin : l.fromPeer.incoming = r :: rest) (hec : r.ec ≠ some .other) :
    Moved l (l.committed rest r.bytes) [] (received l.fromPeer.connection r.bytes) := by
  refine ⟨⟨⟨[], by simp [Link.committed, Link.taken], by simp, rfl⟩, ?_,
    fun o => origins_of_mem_received, rfl, rfl, fun o ho => ho⟩, rfl⟩
  rw [Socket.stream, hin, List.flatMap_cons, text_received, ReadOutcome.delivered, if_neg hec]
  rfl

theorem moved_taken {l : Link} {r : ReadOutcome} {rest : List ReadOutcome}
    (hin : l.fromPeer.incoming = r :: rest) (hd : r.delivered = []) :
    Moved l (l.taken rest) [] [] := by
  refine ⟨⟨⟨[], by simp [Link.taken], by simp, rfl⟩, ?_, by simp, rfl, rfl, ?_⟩, ?_⟩
  · rw [Socket.stream, hin, List.flatMap_cons, hd]; rfl
  · simp [Link.taken]
  · simp [Link.taken]

/-- What a read from the peer does: the buffer grows by what was delivered, and a result without
EOF brought at least one byte. -/
theorem readSomeFromPeer_ends (l : Link) : Ends readSomeFromPeer l
    (fun r l' => ∃ rx, Moved l l' [] rx ∧
      ∀ res ∈ r, res.bytesRead = rx.length ∧ (res.eof = false → 0 < rx.length))
    (fun e l' => e = .blocked ∧ l' = l) := by
  have hnil : (l.fromPeer.isOpen = true → l.fromPeer.incoming = []) → Ends readSomeFromPeer l
      (fun r l' => ∃ rx, Moved l l' [] rx ∧
        ∀ res ∈ r, res.bytesRead = rx.length ∧ (res.eof = false → 0 < rx.length))
      (fun e l' => e = .blocked ∧ l' = l) := by
    intro h
    have hr := readSomeFromPeer_nil h
    split_ifs at hr with hopen heof
    · exact Ends.of_ok hr ⟨[], Moved.refl l, by simp⟩
    · exact Ends.of_error hr ⟨rfl, rfl⟩
    · exact Ends.of_ok hr ⟨[], Moved.refl l, by simp⟩
  cases hin : l.fromPeer.incoming with
  | nil => exact hnil fun _ => hin
  | cons r rest =>
    by_cases hopen : l.fromPeer.isOpen = true
    · have hr := readSomeFromPeer_cons hopen hin
      have hlen : (received l.fromPeer.connection r.bytes).length = r.bytes.length := by
        simp [received]
      rcases hec : r.ec with _ | _ | _ | _
      · rw [hec] at hr
        by_cases hb : r.bytes.length = 0
        · simp only [if_pos hb] at hr
          have hd : r.delivered = [] := by
            rw [ReadOutcome.delivered, hec, if_neg (by simp)]
            exact List.length_eq_zero_iff.mp hb
          exact Ends.of_ok hr ⟨[], moved_taken hin hd, by simp⟩
        · simp only [if_neg hb] at hr
          refine Ends.of_ok hr ⟨_, moved_committed hin (by simp [hec]), ?_⟩
          intro res hres
          cases hres
          exact ⟨hlen.symm, fun _ => by omega⟩
      · rw [hec] at hr
        refine Ends.of_ok hr ⟨_, moved_committed hin (by simp [hec]), ?_⟩
        intro res hres
        cases hres
        exact ⟨hlen.symm, fun h => by cases h⟩
      · rw [hec] at hr
        exact Ends.of_ok hr ⟨_, moved_committed hin (by simp [hec]), by simp⟩
      · rw [hec] at hr
        have hd : r.delivered = [] := by rw [ReadOutcome.delivered, if_pos hec]
        exact Ends.of_ok hr ⟨[], moved_taken hin hd, by simp⟩
    · exact hnil fun h => absurd h hopen

/-- The link after the target accepted one write of `octets`. -/
def Link.accepted (l : Link) (writes : List WriteOutcome) (octets : List Octet) : Link :=
  { l with targetPeer := { l.targetPeer with
      writes := writes
      sent := l.targetPeer.sent ++ [⟨l.targetPeer.connection, octets⟩] } }

/-- The link after the octets written were also consumed. -/
def Link.written (l : Link) (writes : List WriteOutcome) (n : ℕ) : Link :=
  { l.accepted writes (l.readBuffer.take n) with readBuffer := l.readBuffer.drop n }

/-- The outcomes of a write to a socket: all of it, an error behind a prefix, or a closed socket. -/
theorem asyncWrite_cases (octets : List Octet) (s : Socket) :
    (s.isOpen = true ∧ ∃ ws, asyncWrite octets s = .ok (false, octets.length)
      { s with writes := ws, sent := s.sent ++ [⟨s.connection, octets⟩] }) ∨
    (s.isOpen = true ∧ ∃ ws k, asyncWrite octets s = .ok (true, k)
      { s with writes := ws, sent := s.sent ++ [⟨s.connection, octets.take k⟩] }) ∨
    (s.isOpen = false ∧ asyncWrite octets s = .ok (true, 0) s) := by
  by_cases hopen : s.isOpen = true
  · rcases hws : s.writes with _ | ⟨_ | k, ws⟩
    · refine Or.inl ⟨hopen, [], ?_⟩
      rw [asyncWrite, if_pos hopen, hws]
    · refine Or.inl ⟨hopen, ws, ?_⟩
      rw [asyncWrite, if_pos hopen, hws]
    · refine Or.inr (Or.inl ⟨hopen, ws, k, ?_⟩)
      rw [asyncWrite, if_pos hopen, hws]
  · refine Or.inr (Or.inr ⟨by simpa using hopen, ?_⟩)
    rw [asyncWrite, if_neg hopen]

/-- All writes on the socket succeed. -/
def Socket.WritesOk (s : Socket) : Prop := s.isOpen = true ∧ ∀ w ∈ s.writes, w = .ok

/-- `WriteToPeer` when the write reports no error. -/
theorem writeToPeer_success {l : Link} {n : ℕ} {ws : List WriteOutcome}
    (h : asyncWrite (l.readBuffer.take n) l.targetPeer = .ok (false, (l.readBuffer.take n).length)
      (l.accepted ws (l.readBuffer.take n)).targetPeer) :
    writeToPeer n l = if n ≤ l.readBuffer.length then .ok (some n) (l.written ws n)
      else .ok none (l.accepted ws (l.readBuffer.take n)) := by
  have hw : zoom Link.targetPeer (fun s l => { l with targetPeer := s })
      (asyncWrite (l.readBuffer.take n)) l = .ok (false, (l.readBuffer.take n).length)
      (l.accepted ws (l.readBuffer.take n)) := zoom_ok h
  rw [writeToPeer, bind_ok (get_run l), bind_ok hw]
  simp only [Bool.false_eq_true, if_false]
  by_cases hn : n ≤ l.readBuffer.length
  · have hlen : (l.readBuffer.take n).length = n := by simp [hn]
    rw [if_pos hn, hlen, if_neg (by simp)]
    rfl
  · have hlen : (l.readBuffer.take n).length ≠ n := by simp; omega
    rw [if_neg hn, if_pos hlen]
    rfl

/-- `WriteToPeer` when the write fails after `k` bytes. -/
theorem writeToPeer_failure {l l' : Link} {n k : ℕ}
    (h : asyncWrite (l.readBuffer.take n) l.targetPeer = .ok (true, k) l'.targetPeer)
    (hl : l' = { l with targetPeer := l'.targetPeer }) : writeToPeer n l = .ok none l' := by
  have hw : zoom Link.targetPeer (fun s l => { l with targetPeer := s })
      (asyncWrite (l.readBuffer.take n)) l = .ok (true, k) l' := by rw [zoom_ok h, ← hl]
  rw [writeToPeer, bind_ok (get_run l), bind_ok hw]
  rfl

/-- A write of buffered bytes to a socket whose writes succeed. -/
theorem writeToPeer_ok {l : Link} {n : ℕ} (hw : l.targetPeer.WritesOk)
    (hn : n ≤ l.readBuffer.length) :
    writeToPeer n l = .ok (some n) (l.written l.targetPeer.writes.tail n) := by
  obtain ⟨hopen, hws⟩ := hw
  have h : asyncWrite (l.readBuffer.take n) l.targetPeer
      = .ok (false, (l.readBuffer.take n).length)
        (l.accepted l.targetPeer.writes.tail (l.readBuffer.take n)).targetPeer := by
    rw [asyncWrite, if_pos hopen, Link.accepted]
    cases hwr : l.targetPeer.writes with
    | nil => rfl
    | cons w ws =>
      have hwok : w = .ok := hws w (by rw [hwr]; exact List.mem_cons_self)
      subst hwok
      rfl
  rw [writeToPeer_success h, if_pos hn]

/-- Every scripted read of the source brings data. -/
def Socket.Delivers (s : Socket) : Prop :=
  s.isOpen = true ∧ ∀ r ∈ s.incoming, r.ec = none ∧ r.bytes ≠ []

theorem transfer_accepted (l : Link) (ws : List WriteOutcome) {octets : List Octet}
    (hsub : ∀ o ∈ octets, o ∈ l.readBuffer) : Transfer l (l.accepted ws octets) octets [] := by
  refine ⟨⟨[⟨l.targetPeer.connection, octets⟩], rfl, by simp, by simp⟩, rfl, by simp, rfl, rfl, ?_⟩
  intro o ho
  rw [List.append_nil]
  rcases List.mem_append.mp ho with ho | ho
  · exact hsub o ho
  · exact ho

theorem moved_written (l : Link) (ws : List WriteOutcome) (n : ℕ) :
    Moved l (l.written ws n) (l.readBuffer.take n) [] := by
  have hbuf : l.readBuffer.take n ++ (l.written ws n).readBuffer = l.readBuffer ++ [] := by
    rw [List.append_nil]
    exact List.take_append_drop n l.readBuffer
  obtain ⟨h1, h2, h3, h4, h5, -⟩ := transfer_accepted l ws
    fun _ (ho : _ ∈ l.readBuffer.take n) => List.mem_of_mem_take ho
  exact ⟨⟨h1, h2, h3, h4, h5, fun o ho => hbuf ▸ ho⟩, hbuf⟩

/-- A read from a source that still delivers data. -/
theorem readSomeFromPeer_data {l : Link} (hsrc : l.fromPeer.Delivers)
    (hne : l.fromPeer.stream ≠ []) : ∃ n l', 0 < n ∧
      readSomeFromPeer l = .ok (some ⟨n, false⟩) l' ∧ l'.ahead = l.ahead ∧ l'.fromPeer.Delivers ∧
      l'.targetPeer = l.targetPeer ∧
      l'.fromPeer.incoming.length < l.fromPeer.incoming.length := by
  obtain ⟨hopen, hdata⟩ := hsrc
  cases hin : l.fromPeer.incoming with
  | nil => exact absurd (by rw [Socket.stream, hin]; rfl) hne
  | cons r rest =>
    obtain ⟨hec, hb⟩ := hdata r (by rw [hin]; exact List.mem_cons_self)
    have hlen : r.bytes.length ≠ 0 := fun h => hb (List.length_eq_zero_iff.mp h)
    have hr := readSomeFromPeer_cons hopen hin
    rw [hec] at hr
    simp only [if_neg hlen] at hr
    refine ⟨_, _, by omega, hr, ?_, ⟨hopen, fun r' hr' => ?_⟩, rfl,
      by simp [Link.committed, Link.taken]⟩
    · exact (moved_committed hin (by simp [hec])).ahead.symm
    · exact hdata r' (by rw [hin]; exact List.mem_cons_of_mem _ hr')

/-- A write of the front of the buffer to a target whose writes succeed. -/
theorem writeToPeer_front {l : Link} {n : ℕ} (hw : l.targetPeer.WritesOk)
    (hn : n ≤ l.readBuffer.length) : ∃ l', writeToPeer n l = .ok (some n) l' ∧
      l'.targetPeer.WritesOk ∧ l'.fromPeer = l.fromPeer ∧
      l.ahead = (text l.readBuffer).take n ++ l'.ahead := by
  refine ⟨_, writeToPeer_ok hw hn, ⟨hw.1, fun w hmem => ?_⟩, rfl, ?_⟩
  · exact hw.2 w (List.mem_of_mem_tail hmem)
  · rw [(moved_written l _ n).ahead, text_take]

/-- What a write to the peer does: it never suspends; on success the front of the buffer has gone to
the target, otherwise the target has a prefix of that front. -/
theorem writeToPeer_ends (l : Link) (n : ℕ) (E : Stop → Link → Prop) : Ends (writeToPeer n) l
    (fun r l' => match r with
      | some k => k = n ∧ n ≤ l.readBuffer.length ∧ l'.readBuffer = l.readBuffer.drop n ∧
          Moved l l' (l.readBuffer.take n) []
      | none => ∃ tx, Cut l l' tx [] ∧ tx <+: l.readBuffer.take n) E := by
  have hcut : ∀ ws tx, tx <+: l.readBuffer.take n → Cut l (l.accepted ws tx) tx [] := by
    intro ws tx htx
    have hpre := htx.trans (List.take_prefix n l.readBuffer)
    refine ⟨transfer_accepted l ws fun _ ho => hpre.subset ho, ?_⟩
    rwa [List.append_nil]
  have hok : ∀ ws, asyncWrite (l.readBuffer.take n) l.targetPeer
      = .ok (false, (l.readBuffer.take n).length) (l.accepted ws (l.readBuffer.take n)).targetPeer →
      Ends (writeToPeer n) l (fun r l' => match r with
        | some k => k = n ∧ n ≤ l.readBuffer.length ∧ l'.readBuffer = l.readBuffer.drop n ∧
            Moved l l' (l.readBuffer.take n) []
        | none => ∃ tx, Cut l l' tx [] ∧ tx <+: l.readBuffer.take n) E := by
    intro ws h
    have hr := writeToPeer_success h
    split_ifs at hr with hn
    · exact Ends.of_ok hr ⟨rfl, hn, rfl, moved_written l ws n⟩
    · exact Ends.of_ok hr ⟨_, hcut ws _ (List.prefix_refl _), List.prefix_refl _⟩
  rcases asyncWrite_cases (l.readBuffer.take n) l.targetPeer with
    ⟨-, ws, h⟩ | ⟨-, ws, k, h⟩ | ⟨-, h⟩
  · exact hok ws h
  · have htx : (l.readBuffer.take n).take k <+: l.readBuffer.take n := List.take_prefix _ _
    have h' : asyncWrite (l.readBuffer.take n) l.targetPeer
        = .ok (true, k) (l.accepted ws ((l.readBuffer.take n).take k)).targetPeer := h
    exact Ends.of_ok (writeToPeer_failure h' rfl) ⟨_, hcut ws _ htx, htx⟩
  · exact Ends.of_ok (writeToPeer_failure h rfl) ⟨[], (Moved.refl l).cut, List.nil_prefix⟩

/-- What a write to a socket does: the target accepts a prefix of the octets, all of them if there
is no error. -/
theorem asyncWrite_ends (octets : List Octet) (s : Socket) (E : Stop → Socket → Prop) :
    Ends (asyncWrite octets) s (fun r s' => ∃ ds,
      s' = { s with writes := s'.writes, sent := s.sent ++ ds } ∧
      (∀ d ∈ ds, d.connection = s.connection) ∧ ds.flatMap Delivery.octets <+: octets ∧
      (r.1 = false → ds.flatMap Delivery.octets = octets)) E := by
  rcases asyncWrite_cases octets s with ⟨-, ws, h⟩ | ⟨-, ws, k, h⟩ | ⟨-, h⟩
  · exact Ends.of_ok h ⟨[⟨s.connection, octets⟩], rfl, by simp, by simp, by simp⟩
  · exact Ends.of_ok h
      ⟨[⟨s.connection, octets.take k⟩], rfl, by simp, by simp [List.take_prefix], by simp⟩
  · exact Ends.of_ok h ⟨[], by simp, by simp, by simp, by simp⟩

/-- The same in bytes. -/
theorem asyncWrite_text (octets : List Octet) (s : Socket) (E : Stop → Socket → Prop) :
    Ends (asyncWrite octets) s (fun r s' => s'.stream = s.stream ∧
      ∃ w, text s'.sentOctets = text s.sentOctets ++ w ∧ w <+: text octets ∧
        (r.1 = false → w = text octets)) E := by
  refine (asyncWrite_ends octets s E).mono ?_ fun _ _ h => h
  rintro r s' ⟨ds, hs', -, hpre, hall⟩
  refine ⟨by rw [hs']; rfl, text (ds.flatMap Delivery.octets), ?_, hpre.map Octet.val, fun h => by
    rw [hall h]⟩
  rw [hs', Socket.sentOctets, List.flatMap_append, text_append]
  rfl

end ProxyPP.Http
