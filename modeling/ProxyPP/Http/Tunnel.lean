import Mathlib.Logic.Function.Basic
import Mathlib.Logic.Relation
import ProxyPP.Http.Runs

/-!
# ProxyPP.Http.Tunnel — the two coroutines of a tunnel

`RelayTunnelBidirectional` as a machine.  A coroutine is at one of its suspension points (`Point`):
in front of the loop, in a read, behind one whose outcome is not yet taken, in a write of which the
target has accepted a part, or at its end.  A step is one move of either coroutine
(`Tunnel.Step`), so a run of the machine is an interleaving.  A write goes on or fails at any time;
the scripts of write outcomes are one way to choose.

A direction sees the session as a `Half`: what its source still sends, its buffer, and what its
target has accepted.  `Books` is the account of a half at a point.  The other direction leaves a
half alone, and so does `Close`, so the books of both are kept (`Tunnel.Step.inv`).
-/

namespace ProxyPP.Http

open ProxyPP ProxyPP.Lib

variable {η : Type}

/-! ## The machine -/

/-- The view of the forwarding functions in a direction. -/
def Session.link (s : Session η) : Direction → Link
  | .clientToRemote => s.upLink
  | .remoteToClient => s.downLink

def Session.putLink (s : Session η) : Direction → Link → Session η
  | .clientToRemote, l => s.putUpLink l
  | .remoteToClient, l => s.putDownLink l

/-- Where a coroutine of the tunnel is. -/
inductive Point
  | top
  | reading
  | received (r : ReadOutcome)
  | writing (bytesToWrite accepted : ℕ)
  | stopped
  deriving DecidableEq, Repr

/-- What made a coroutine leave its loop. -/
inductive StopCause
  | eof
  | readFailed
  | writeFailed
  deriving DecidableEq, Repr

/-- `ReadSomeFromPeer` behind `async_read_some`. -/
def readResult (r : ReadOutcome) : EStateM Stop Link (Option ReadSomeResult) :=
  match r.ec with
  | some .eof => do
    commit r.bytes
    pure (some ⟨r.bytes.length, true⟩)
  | some .operationAborted => do
    commit r.bytes
    pure none
  | some .other => pure none
  | none =>
    if r.bytes.length = 0 then pure none
    else do
      commit r.bytes
      pure (some ⟨r.bytes.length, false⟩)

theorem readSomeFromPeer_eq_bind : readSomeFromPeer
    = zoom Link.fromPeer (fun s l => { l with fromPeer := s }) asyncReadSome >>= readResult := rfl

/-- A move of a coroutine inside its loop. -/
inductive LinkStep : Point → Link → Point → Link → Prop
  | startRead {l : Link} : l.readBuffer.length = 0 → LinkStep .top l .reading l
  | read {l : Link} {r : ReadOutcome} {s : Socket} : asyncReadSome l.fromPeer = .ok r s →
      LinkStep .reading l (.received r) { l with fromPeer := s }
  | data {l l' : Link} {r : ReadOutcome} {n : ℕ} : readResult r l = .ok (some ⟨n, false⟩) l' →
      LinkStep (.received r) l .top l'
  | startWrite {l : Link} : l.readBuffer.length ≠ 0 →
      LinkStep .top l (.writing l.readBuffer.length 0) l
  | accept {l : Link} {n k m : ℕ} {ws : List WriteOutcome} : l.targetPeer.isOpen = true →
      k + m ≤ n → LinkStep (.writing n k) l (.writing n (k + m))
        (l.accepted ws ((l.readBuffer.drop k).take m))
  | finish {l : Link} {n : ℕ} :
      LinkStep (.writing n n) l .top { l with readBuffer := l.readBuffer.drop n }

/-- A move that leaves the loop. -/
inductive LinkStops : Point → Link → StopCause → Link → Prop
  | eof {l l' : Link} {r : ReadOutcome} {n : ℕ} : readResult r l = .ok (some ⟨n, true⟩) l' →
      LinkStops (.received r) l .eof l'
  | readFailed {l l' : Link} {r : ReadOutcome} : readResult r l = .ok none l' →
      LinkStops (.received r) l .readFailed l'
  | writeFailed {l : Link} {n k : ℕ} {ws : List WriteOutcome} : LinkStops (.writing n k) l
      .writeFailed { l with targetPeer := { l.targetPeer with writes := ws } }

/-- A session with both coroutines under way, and (ghost) whose end closed it first. -/
structure Tunnel (η : Type) where
  session : Session η
  point : Direction → Point
  cause : Option (Direction × StopCause)

/-- A move of one of the coroutines; one that leaves its loop closes the session. -/
inductive Tunnel.Step : Tunnel η → Tunnel η → Prop
  | move {t : Tunnel η} {d : Direction} {p : Point} {l : Link} :
      LinkStep (t.point d) (t.session.link d) p l →
      Step t ⟨t.session.putLink d l, Function.update t.point d p, t.cause⟩
  | stop {t : Tunnel η} {d : Direction} {c : StopCause} {l : Link} {s : Session η} :
      LinkStops (t.point d) (t.session.link d) c l →
      close (t.session.putLink d l) = .ok ⟨⟩ s →
      Step t ⟨s, Function.update t.point d .stopped,
        if t.session.closed then t.cause else some (d, c)⟩

/-- An interleaving of the two coroutines. -/
abbrev Tunnel.Run : Tunnel η → Tunnel η → Prop := Relation.ReflTransGen Tunnel.Step

/-- `RelayTunnelBidirectional` is called in `s`. -/
def Tunnel.start (s : Session η) : Tunnel η := ⟨s, fun _ => .top, none⟩

/-! ## The books of a direction -/

/-- What a direction sees of the session. -/
structure Half where
  source : Connection
  incoming : List ReadOutcome
  buffer : List Octet
  sent : List Octet

def Link.half (l : Link) : Half :=
  ⟨l.fromPeer.connection, l.fromPeer.incoming, l.readBuffer, l.targetPeer.sentOctets⟩

/-- The bytes that a script delivers in front of its first EOF. -/
def beforeEof : List ReadOutcome → Bytes
  | [] => []
  | r :: rest => if r.ec = some .eof then [] else r.delivered ++ beforeEof rest

/-- Bytes that a read took from the source and the coroutine has not yet taken from the read. -/
def Point.inFlight : Point → Bytes
  | .received r => r.delivered
  | _ => []

/-- What is buffered and not yet accepted by the target. -/
def Point.unsent (p : Point) (h : Half) : List Octet :=
  match p with
  | .writing _ k => h.buffer.drop k
  | _ => h.buffer

/-- What is still to come in front of the EOF. -/
def Point.toCome (p : Point) (h : Half) : Bytes :=
  match p with
  | .received r => if r.ec = some .eof then [] else r.delivered ++ beforeEof h.incoming
  | _ => beforeEof h.incoming

/-- What a point says about the buffer. -/
def Point.Fits (p : Point) (h : Half) : Prop :=
  match p with
  | .reading | .received _ => h.buffer = []
  | .writing n k => n = h.buffer.length ∧ k ≤ n
  | _ => True

/-- From `h₀` to `h` the target accepted `tx` and `rx` was received from the source. -/
structure Books (h₀ : Half) (p : Point) (h : Half) (tx rx : List Octet) : Prop where
  source : h.source = h₀.source
  sent : h.sent = h₀.sent ++ tx
  origins : ∀ o ∈ rx, o.origins = [h₀.source.id]
  stream : h₀.incoming.flatMap ReadOutcome.delivered
    = text rx ++ p.inFlight ++ h.incoming.flatMap ReadOutcome.delivered
  front : tx <+: h₀.buffer ++ rx
  fits : p.Fits h
  running : p ≠ .stopped → tx ++ p.unsent h = h₀.buffer ++ rx ∧
    beforeEof h₀.incoming = text rx ++ p.toCome h

/-- Both the bytes a direction had in its buffer and those its source sent before the EOF are with
the target. -/
def Half.AllSent (h₀ h : Half) : Prop :=
  text h.sent = text h₀.sent ++ text h₀.buffer ++ beforeEof h₀.incoming

theorem Books.refl (h : Half) : Books h .top h [] [] where
  source := rfl
  sent := (List.append_nil _).symm
  origins := by simp
  stream := rfl
  front := List.nil_prefix
  fits := trivial
  running _ := ⟨(List.append_nil _).symm, rfl⟩

/-! ### One move -/

/-- What `async_read_some` takes from its script. -/
theorem asyncReadSome_ok {s s' : Socket} {r : ReadOutcome} (h : asyncReadSome s = .ok r s') :
    s' = { s with incoming := s'.incoming } ∧
    s.incoming.flatMap ReadOutcome.delivered
      = r.delivered ++ s'.incoming.flatMap ReadOutcome.delivered ∧
    beforeEof s.incoming
      = if r.ec = some .eof then [] else r.delivered ++ beforeEof s'.incoming := by
  rw [asyncReadSome] at h
  by_cases hopen : s.isOpen = true
  · rw [if_pos hopen] at h
    cases hin : s.incoming with
    | cons r₁ rest =>
      rw [hin] at h
      cases h
      exact ⟨rfl, rfl, rfl⟩
    | nil =>
      rw [hin] at h
      by_cases heof : s.atEof = true
      · simp only [if_pos heof] at h
        cases h
        exact ⟨rfl, by rw [hin]; rfl, rfl⟩
      · simp only [if_neg heof] at h
        cases h
  · rw [if_neg hopen] at h
    cases h
    exact ⟨rfl, rfl, rfl⟩

/-- What was received goes into the buffer, whatever the outcome. -/
theorem readResult_run (r : ReadOutcome) (l : Link) : ∃ res, readResult r l = .ok res
    { l with readBuffer := l.readBuffer ++ received l.fromPeer.connection r.delivered } ∧
    ∀ x ∈ res, x.eof = true ↔ r.ec = some .eof := by
  have hnil : { l with readBuffer := l.readBuffer ++ received l.fromPeer.connection [] } = l := by
    rw [show received l.fromPeer.connection [] = [] from rfl, List.append_nil]
  rcases r with ⟨_ | _ | _ | _, bytes⟩
  · by_cases hb : bytes.length = 0
    · obtain rfl := List.length_eq_zero_iff.mp hb
      refine ⟨none, ?_, by simp⟩
      show EStateM.Result.ok none l
        = .ok none { l with readBuffer := l.readBuffer ++ received l.fromPeer.connection [] }
      rw [hnil]
    · refine ⟨some ⟨bytes.length, false⟩, ?_, by simp⟩
      simp only [readResult, if_neg hb]
      rfl
  · exact ⟨_, rfl, by simp⟩
  · exact ⟨_, rfl, by simp⟩
  · refine ⟨none, ?_, by simp⟩
    show EStateM.Result.ok none l
      = .ok none { l with readBuffer := l.readBuffer ++ received l.fromPeer.connection [] }
    rw [hnil]

theorem readResult_eq {r : ReadOutcome} {l l' : Link} {res : Option ReadSomeResult}
    (h : readResult r l = .ok res l') :
    l' = { l with readBuffer := l.readBuffer ++ received l.fromPeer.connection r.delivered } ∧
      ∀ x ∈ res, x.eof = true ↔ r.ec = some .eof := by
  obtain ⟨res', hr, heof⟩ := readResult_run r l
  rw [hr] at h
  cases h
  exact ⟨rfl, heof⟩

section Moves

variable {h₀ : Half} {p p' : Point} {l l' : Link} {tx rx : List Octet}

/-- The received bytes leave the read for the buffer. -/
theorem Books.commit {r : ReadOutcome} (h : Books h₀ (.received r) l.half tx rx) :
    Books h₀ .stopped
      { l with readBuffer := l.readBuffer ++ received l.fromPeer.connection r.delivered }.half tx
      (rx ++ received l.fromPeer.connection r.delivered) where
  source := h.source
  sent := h.sent
  origins o ho := by
    rcases List.mem_append.mp ho with ho | ho
    · exact h.origins o ho
    · rw [origins_of_mem_received ho, ← h.source]
      rfl
  stream := by
    rw [h.stream, text_append, text_received]
    show _ = _ ++ [] ++ _
    rw [List.append_nil]
    rfl
  front := by
    rw [← List.append_assoc]
    exact h.front.trans (List.prefix_append _ _)
  fits := trivial
  running hp := absurd rfl hp

/-- A move inside the loop keeps the books. -/
theorem Books.step (h : Books h₀ p l.half tx rx) (hs : LinkStep p l p' l') :
    ∃ tx rx, Books h₀ p' l'.half tx rx := by
  cases hs with
  | startRead hbuf =>
    obtain ⟨hsource, hsent, horig, hstream, hfront, -, hrun⟩ := h
    exact ⟨tx, rx, hsource, hsent, horig, hstream, hfront, List.length_eq_zero_iff.mp hbuf,
      fun _ => hrun (by simp)⟩
  | @read _ r s hr =>
    obtain ⟨hsource, hsent, horig, hstream, hfront, hfits, hrun⟩ := h
    obtain ⟨hs, hdel, hbefore⟩ := asyncReadSome_ok hr
    obtain ⟨htx, hup⟩ := hrun (by simp)
    refine ⟨tx, rx, ?_, hsent, horig, ?_, hfront, hfits, fun _ => ⟨htx, ?_⟩⟩
    · rw [← hsource]
      show s.connection = l.fromPeer.connection
      rw [hs]
    · rw [hstream, List.append_assoc, List.append_assoc]
      exact congrArg (text rx ++ ·) hdel
    · rw [hup]
      exact congrArg (text rx ++ ·) hbefore
  | @data _ _ r n hr =>
    obtain ⟨rfl, heof⟩ := readResult_eq hr
    obtain ⟨htx, hup⟩ := h.running (by simp)
    obtain ⟨hsource, hsent, horig, hstream, hfront, -, -⟩ := h.commit
    refine ⟨tx, _, hsource, hsent, horig, hstream, hfront, trivial, fun _ => ⟨?_, ?_⟩⟩
    · rw [← List.append_assoc, ← htx, List.append_assoc]
      rfl
    · have hne : ¬ r.ec = some .eof := fun h => by simpa using (heof _ rfl).mpr h
      rw [hup, text_append, text_received, List.append_assoc]
      exact congrArg (text rx ++ ·) (if_neg hne)
  | startWrite hbuf =>
    obtain ⟨hsource, hsent, horig, hstream, hfront, -, hrun⟩ := h
    exact ⟨tx, rx, hsource, hsent, horig, hstream, hfront, ⟨rfl, Nat.zero_le _⟩,
      fun _ => hrun (by simp)⟩
  | @accept _ n k m ws hopen hle =>
    obtain ⟨hsource, hsent, horig, hstream, hfront, ⟨hn, -⟩, hrun⟩ := h
    obtain ⟨htx, hup⟩ := hrun (by simp)
    have hcut : tx ++ (l.readBuffer.drop k).take m ++ l.readBuffer.drop (k + m)
        = h₀.buffer ++ rx := by
      rw [List.append_assoc, ← List.drop_drop, List.take_append_drop]
      exact htx
    refine ⟨tx ++ (l.readBuffer.drop k).take m, rx, hsource, ?_, horig, hstream, ⟨_, hcut⟩,
      ⟨hn, hle⟩, fun _ => ⟨hcut, hup⟩⟩
    rw [← List.append_assoc, ← hsent]
    show List.flatMap _ (_ ++ [_]) = List.flatMap _ _ ++ _
    simp
  | @finish _ n =>
    obtain ⟨hsource, hsent, horig, hstream, hfront, -, hrun⟩ := h
    exact ⟨tx, rx, hsource, hsent, horig, hstream, hfront, trivial, fun _ => hrun (by simp)⟩

/-- So does one that leaves it, and at EOF all is sent. -/
theorem Books.stops {c : StopCause} (h : Books h₀ p l.half tx rx) (hs : LinkStops p l c l') :
    (∃ tx rx, Books h₀ .stopped l'.half tx rx) ∧ (c = .eof → h₀.AllSent l'.half) := by
  cases hs with
  | @eof _ _ r n hr =>
    obtain ⟨rfl, heof⟩ := readResult_eq hr
    refine ⟨⟨_, _, h.commit⟩, fun _ => ?_⟩
    obtain ⟨htx, hup⟩ := h.running (by simp)
    have hbuf : l.readBuffer = [] := h.fits
    have htx' : tx ++ l.readBuffer = h₀.buffer ++ rx := htx
    have hup' : beforeEof h₀.incoming = text rx := by
      rw [hup, Point.toCome, if_pos ((heof _ rfl).mp rfl), List.append_nil]
    rw [hbuf, List.append_nil] at htx'
    have hsent : l.half.sent = h₀.sent ++ tx := h.sent
    show text l.half.sent = _
    rw [hsent, htx', text_append, text_append, hup', List.append_assoc]
  | readFailed hr =>
    obtain ⟨rfl, -⟩ := readResult_eq hr
    exact ⟨⟨_, _, h.commit⟩, fun hc => by cases hc⟩
  | @writeFailed _ n k ws =>
    obtain ⟨hsource, hsent, horig, hstream, hfront, -, -⟩ := h
    exact ⟨⟨tx, rx, hsource, hsent, horig, hstream, hfront, trivial, fun hp => absurd rfl hp⟩,
      fun hc => by cases hc⟩

/-! ### The other direction -/

/-- What a move may change of a link. -/
def Link.Forwards (l l' : Link) : Prop :=
  l'.fromPeer = { l.fromPeer with incoming := l'.fromPeer.incoming } ∧
  l'.targetPeer = { l.targetPeer with writes := l'.targetPeer.writes, sent := l'.targetPeer.sent }

theorem LinkStep.forwards (hs : LinkStep p l p' l') : l.Forwards l' := by
  cases hs with
  | startRead | startWrite | finish => exact ⟨rfl, rfl⟩
  | read hr => exact ⟨(asyncReadSome_ok hr).1, rfl⟩
  | data hr =>
    obtain ⟨rfl, -⟩ := readResult_eq hr
    exact ⟨rfl, rfl⟩
  | accept => exact ⟨rfl, rfl⟩

theorem LinkStops.forwards {c : StopCause} (hs : LinkStops p l c l') : l.Forwards l' := by
  cases hs with
  | eof hr | readFailed hr =>
    obtain ⟨rfl, -⟩ := readResult_eq hr
    exact ⟨rfl, rfl⟩
  | writeFailed => exact ⟨rfl, rfl⟩

/-- Nothing is accepted by a closed target. -/
theorem LinkStep.quiet (hs : LinkStep p l p' l') (hclosed : l.targetPeer.isOpen = false) :
    l'.targetPeer.sent = l.targetPeer.sent := by
  cases hs with
  | startRead | startWrite | finish | read => rfl
  | data hr =>
    obtain ⟨rfl, -⟩ := readResult_eq hr
    rfl
  | accept hopen =>
    rw [hclosed] at hopen
    cases hopen

theorem LinkStops.quiet {c : StopCause} (hs : LinkStops p l c l') :
    l'.targetPeer.sent = l.targetPeer.sent := by
  cases hs with
  | eof hr | readFailed hr =>
    obtain ⟨rfl, -⟩ := readResult_eq hr
    rfl
  | writeFailed => rfl

end Moves

/-! ## Runs -/

section Frame

variable (s : Session η) (d d' : Direction) (l : Link)

theorem link_putLink : (s.putLink d l).link d = l := by
  cases d <;> rfl

theorem closed_putLink : (s.putLink d l).closed = s.closed := by
  cases d <;> rfl

variable {s d d' l}

/-- A move in the other direction. -/
theorem half_putLink (hne : d' ≠ d) (h : (s.link d).Forwards l) :
    ((s.putLink d l).link d').half = (s.link d').half := by
  obtain ⟨hfrom, htarget⟩ := h
  cases d with
  | clientToRemote =>
    cases d' with
    | clientToRemote => exact absurd rfl hne
    | remoteToClient =>
      show Half.mk l.targetPeer.connection l.targetPeer.incoming s.remoteReadBuffer
        l.fromPeer.sentOctets = _
      rw [hfrom, htarget]
      rfl
  | remoteToClient =>
    cases d' with
    | clientToRemote =>
      show Half.mk l.targetPeer.connection l.targetPeer.incoming s.clientReadBuffer
        l.fromPeer.sentOctets = _
      rw [hfrom, htarget]
      rfl
    | remoteToClient => exact absurd rfl hne

/-- No move opens a socket again. -/
theorem isOpen_putLink (h : (s.link d).Forwards l) :
    ((s.putLink d l).link d').targetPeer.isOpen = (s.link d').targetPeer.isOpen := by
  obtain ⟨hfrom, htarget⟩ := h
  have hfrom' : l.fromPeer.isOpen = (s.link d).fromPeer.isOpen := by rw [hfrom]
  have htarget' : l.targetPeer.isOpen = (s.link d).targetPeer.isOpen := by rw [htarget]
  cases d with
  | clientToRemote =>
    cases d' with
    | clientToRemote => exact htarget'
    | remoteToClient => exact hfrom'
  | remoteToClient =>
    cases d' with
    | clientToRemote => exact hfrom'
    | remoteToClient => exact htarget'

/-- `Close` closes both sockets and leaves the halves alone. -/
theorem close_half {u : Session η} (h : close s = .ok ⟨⟩ u) (d : Direction) :
    (u.link d).half = (s.link d).half ∧ u.closed = true ∧
      (s.closed = false → (u.link d).targetPeer.isOpen = false) ∧ (s.closed = true → u = s) := by
  rw [close_run] at h
  by_cases hc : s.closed = true
  · rw [if_pos hc] at h
    cases h
    exact ⟨rfl, hc, fun hf => absurd (hc.symm.trans hf) (by decide), fun _ => rfl⟩
  · rw [if_neg hc] at h
    cases h
    cases d with
    | clientToRemote => exact ⟨rfl, rfl, fun _ => rfl, fun h => absurd h hc⟩
    | remoteToClient => exact ⟨rfl, rfl, fun _ => rfl, fun h => absurd h hc⟩

end Frame

/-- The invariant of a tunnel that was started in `s₀`. -/
structure Tunnel.Inv (s₀ : Session η) (t : Tunnel η) : Prop where
  books : ∀ d, ∃ tx rx, Books (s₀.link d).half (t.point d) (t.session.link d).half tx rx
  shut : t.session.closed = true → ∀ d, (t.session.link d).targetPeer.isOpen = false
  cause : t.session.closed = true ↔ t.cause.isSome = true
  eof : ∀ d, t.cause = some (d, .eof) → (s₀.link d).half.AllSent (t.session.link d).half
  stopped : ∀ d, t.point d = .stopped → t.session.closed = true

theorem Tunnel.inv_start {s₀ : Session η} (h : s₀.closed = false) :
    (Tunnel.start s₀).Inv s₀ where
  books d := ⟨[], [], Books.refl _⟩
  shut hc := absurd (h.symm.trans hc) (by decide)
  cause := ⟨fun hc => absurd (h.symm.trans hc) (by decide), fun hc => by cases hc⟩
  eof d hc := by cases hc
  stopped d hd := by cases hd

/-- What a step does once the session is closed: it sends nothing. -/
theorem Tunnel.Step.quiet {s₀ : Session η} {t t' : Tunnel η} (hs : Tunnel.Step t t')
    (h : t.Inv s₀) (hc : t.session.closed = true) :
    t'.session.closed = true ∧ t'.cause = t.cause ∧
      ∀ d, (t'.session.link d).half.sent = (t.session.link d).half.sent := by
  cases hs with
  | @move d p l hl =>
    refine ⟨(closed_putLink ..).trans hc, rfl, fun d' => ?_⟩
    by_cases hd : d' = d
    · subst hd
      rw [link_putLink]
      show List.flatMap _ l.targetPeer.sent = _
      rw [hl.quiet (h.shut hc d')]
      rfl
    · rw [half_putLink hd hl.forwards]
  | @stop d c l s hl hclose =>
    refine ⟨(close_half hclose d).2.1, if_pos hc, fun d' => ?_⟩
    show (s.link d').half.sent = _
    rw [(close_half hclose d').1]
    by_cases hd : d' = d
    · subst hd
      rw [link_putLink]
      show List.flatMap _ l.targetPeer.sent = _
      rw [hl.quiet]
      rfl
    · rw [half_putLink hd hl.forwards]

/-- No move ends a coroutine. -/
theorem LinkStep.ne_stopped {p p' : Point} {l l' : Link} (h : LinkStep p l p' l') :
    p' ≠ .stopped := by
  cases h <;> simp

/-- **A step keeps the invariant.** -/
theorem Tunnel.Step.inv {s₀ : Session η} {t t' : Tunnel η} (hs : Tunnel.Step t t')
    (h : t.Inv s₀) : t'.Inv s₀ := by
  have hquiet := hs.quiet h
  cases hs with
  | @move d p l hl =>
    refine ⟨fun d' => ?_, fun hc d' => ?_, ?_, fun d' hcause => ?_, fun d' hpoint => ?_⟩
    · dsimp only
      by_cases hd : d' = d
      · subst hd
        obtain ⟨tx, rx, hb⟩ := h.books d'
        rw [Function.update_self, link_putLink]
        exact hb.step hl
      · rw [Function.update_of_ne hd, half_putLink hd hl.forwards]
        exact h.books d'
    · rw [isOpen_putLink hl.forwards]
      exact h.shut ((closed_putLink ..).symm.trans hc) d'
    · rw [closed_putLink]
      exact h.cause
    · have hc : t.session.closed = true := h.cause.mpr (by rw [show t.cause = _ from hcause]; rfl)
      show text (((t.session.putLink d l).link d').half.sent) = _
      rw [(hquiet hc).2.2 d']
      exact h.eof d' hcause
    · rw [closed_putLink]
      dsimp only at hpoint
      by_cases hd : d' = d
      · rw [hd, Function.update_self] at hpoint
        exact absurd hpoint hl.ne_stopped
      · rw [Function.update_of_ne hd] at hpoint
        exact h.stopped d' hpoint
  | @stop d c l s hl hclose =>
    have hhalf := fun d' => (close_half hclose d').1
    obtain ⟨tx, rx, hb⟩ := h.books d
    obtain ⟨hstopped, heof⟩ := hb.stops hl
    refine ⟨fun d' => ?_, fun _ d' => ?_, ?_, fun d' hcause => ?_,
      fun _ _ => (close_half hclose d).2.1⟩
    · dsimp only
      rw [hhalf]
      by_cases hd : d' = d
      · subst hd
        rw [Function.update_self, link_putLink]
        exact hstopped
      · rw [Function.update_of_ne hd, half_putLink hd hl.forwards]
        exact h.books d'
    · cases hc : t.session.closed with
      | false => exact (close_half hclose d').2.2.1 ((closed_putLink ..).trans hc)
      | true =>
        show (s.link d').targetPeer.isOpen = false
        rw [(close_half hclose d').2.2.2 ((closed_putLink ..).trans hc),
          isOpen_putLink hl.forwards]
        exact h.shut hc d'
    · refine iff_of_true (close_half hclose d).2.1 ?_
      by_cases hc : t.session.closed = true
      · rw [if_pos hc]
        exact h.cause.mp hc
      · rw [if_neg hc]
        rfl
    · by_cases hc : t.session.closed = true
      · rw [if_pos hc] at hcause
        show text ((s.link d').half.sent) = _
        rw [(hquiet hc).2.2 d']
        exact h.eof d' hcause
      · -- this step closes the session
        rw [if_neg hc] at hcause
        cases hcause
        show (s₀.link d).half.AllSent (s.link d).half
        rw [hhalf, link_putLink]
        exact heof rfl

theorem Tunnel.Run.inv {s₀ : Session η} {t t' : Tunnel η} (hr : Tunnel.Run t t')
    (h : t.Inv s₀) : t'.Inv s₀ := by
  induction hr with
  | refl => exact h
  | tail _ hs ih => exact hs.inv ih

/-- Behind the first `Close` nothing is sent. -/
theorem Tunnel.Run.quiet {s₀ : Session η} {t t' : Tunnel η} (hr : Tunnel.Run t t')
    (h : t.Inv s₀) (hc : t.session.closed = true) : t'.session.closed = true ∧
      ∀ d, (t'.session.link d).half.sent = (t.session.link d).half.sent := by
  induction hr with
  | refl => exact ⟨hc, fun _ => rfl⟩
  | @tail u v hru hs ih =>
    obtain ⟨hcu, hsent⟩ := ih
    obtain ⟨hcv, -, hsent'⟩ := hs.quiet (Tunnel.Run.inv hru h) hcu
    exact ⟨hcv, fun d => (hsent' d).trans (hsent d)⟩

/-! ## The coroutines of the session run on the machine -/

/-- Moves of one coroutine inside its loop. -/
abbrev LinkRun : Point × Link → Point × Link → Prop :=
  Relation.ReflTransGen fun a b => LinkStep a.1 a.2 b.1 b.2

theorem putLink_link (s : Session η) (d : Direction) : s.putLink d (s.link d) = s := by
  cases d <;> rfl

theorem putLink_putLink (s : Session η) (d : Direction) (l l' : Link) :
    (s.putLink d l).putLink d l' = s.putLink d l' := by
  cases d <;> rfl

theorem LinkRun.tunnel {a b : Point × Link} (h : LinkRun a b) {t : Tunnel η} {d : Direction}
    (hpoint : t.point d = a.1) (hlink : t.session.link d = a.2) :
    Tunnel.Run t ⟨t.session.putLink d b.2, Function.update t.point d b.1, t.cause⟩ := by
  induction h with
  | refl =>
    rw [← hpoint, ← hlink, putLink_link, Function.update_eq_self]
  | @tail b c _ hs ih =>
    refine ih.tail ?_
    have hmove := @Tunnel.Step.move _ ⟨t.session.putLink d b.2, Function.update t.point d b.1,
      t.cause⟩ d c.1 c.2
    simp only [Function.update_self, link_putLink, putLink_putLink, Function.update_idem] at hmove
    exact hmove hs

theorem LinkRun.tunnel_stop {a : Point × Link} {p : Point} {u l : Link} (h : LinkRun a (p, u))
    {c : StopCause} (hstop : LinkStops p u c l) {t : Tunnel η} {d : Direction}
    (hpoint : t.point d = a.1) (hlink : t.session.link d = a.2) {s : Session η}
    (hclose : close (t.session.putLink d l) = .ok ⟨⟩ s) :
    Tunnel.Run t ⟨s, Function.update t.point d .stopped,
      if t.session.closed then t.cause else some (d, c)⟩ := by
  refine (h.tunnel hpoint hlink).tail ?_
  have hleave := @Tunnel.Step.stop _ ⟨t.session.putLink d u, Function.update t.point d p, t.cause⟩
    d c l s
  simp only [Function.update_self, link_putLink, putLink_putLink, closed_putLink,
    Function.update_idem] at hleave
  exact hleave hstop hclose

/-- A read that is answered, from the head of the loop. -/
theorem LinkRun.read {l : Link} {r : ReadOutcome} {s : Socket} (hempty : l.readBuffer.length = 0)
    (hr : asyncReadSome l.fromPeer = .ok r s) :
    LinkRun (.top, l) (.received r, { l with fromPeer := s }) :=
  .tail (.single (b := (.reading, l)) (.startRead hempty)) (.read hr)

/-- A write of which the target accepts the first `m` octets, from the head of the loop. -/
theorem LinkRun.write {l : Link} {m : ℕ} {ws : List WriteOutcome}
    (hbuf : l.readBuffer.length ≠ 0) (hopen : l.targetPeer.isOpen = true)
    (hle : m ≤ l.readBuffer.length) : LinkRun (.top, l)
      (.writing l.readBuffer.length m, l.accepted ws (l.readBuffer.take m)) := by
  refine .tail (.single (b := (.writing l.readBuffer.length 0, l)) (.startWrite hbuf)) ?_
  have haccept := @LinkStep.accept l l.readBuffer.length 0 m ws hopen (by omega)
  rw [Nat.zero_add, List.drop_zero] at haccept
  exact haccept

/-- One operation of a coroutine is a run of moves, or it waits. -/
theorem forwardViaTunnelStep_moves (l : Link) : Ends forwardViaTunnelStep l
    (fun running l' => if running then LinkRun (.top, l) (.top, l')
      else ∃ p u c, LinkRun (.top, l) (p, u) ∧ LinkStops p u c l')
    fun e _ => e = .blocked := by
  refine ends_bind (ends_get ?_)
  by_cases hempty : l.readBuffer.length = 0
  · rw [if_pos hempty, readSomeFromPeer_eq_bind]
    cases hr : asyncReadSome l.fromPeer with
    | error e s =>
      refine ends_bind (Ends.of_error (bind_error (e := e) (t := { l with fromPeer := s }) ?_) ?_)
      · simp only [zoom, hr]
      · exact ((asyncReadSome_ends l.fromPeer).error hr).1
    | ok r s =>
      have hzoom : zoom Link.fromPeer (fun s l => { l with fromPeer := s }) asyncReadSome l
          = .ok r { l with fromPeer := s } := zoom_ok hr
      obtain ⟨res, hres, heof⟩ := readResult_run r { l with fromPeer := s }
      refine ends_bind (Ends.of_ok ((bind_ok hzoom).trans hres) ?_)
      have hread := LinkRun.read hempty hr
      rcases res with _ | ⟨n, _ | _⟩
      · exact ends_pure ⟨_, _, _, hread, .readFailed hres⟩
      · exact ends_pure (hread.tail (.data hres))
      · exact ends_pure ⟨_, _, _, hread, .eof hres⟩
  · rw [if_neg hempty]
    have hall : l.readBuffer.take l.readBuffer.length = l.readBuffer := List.take_length
    rcases asyncWrite_cases (l.readBuffer.take l.readBuffer.length) l.targetPeer with
      ⟨hopen, ws, h⟩ | ⟨hopen, ws, k, h⟩ | ⟨-, h⟩
    · -- all of it
      have hwrite := @writeToPeer_success l _ ws h
      rw [if_pos (le_refl _)] at hwrite
      refine ends_bind (Ends.of_ok hwrite (ends_pure ?_))
      exact (LinkRun.write hempty hopen (le_refl _)).tail .finish
    · -- a part of it
      rw [hall] at h
      have hmin : l.readBuffer.take k = l.readBuffer.take (min k l.readBuffer.length) :=
        (List.take_eq_take_min ..)
      rw [hmin] at h
      have hwrite : writeToPeer l.readBuffer.length l = .ok none
          (l.accepted ws (l.readBuffer.take (min k l.readBuffer.length))) := by
        refine writeToPeer_failure (k := k) ?_ rfl
        rw [hall]
        exact h
      have hpart := @LinkRun.write l _ ws hempty hopen (Nat.min_le_right k l.readBuffer.length)
      exact ends_bind (Ends.of_ok hwrite (ends_pure
        ⟨_, _, _, hpart, @LinkStops.writeFailed _ _ _ ws⟩))
    · -- the target is closed
      have hstart : LinkRun (.top, l) (.writing l.readBuffer.length 0, l) :=
        .single (.startWrite hempty)
      exact ends_bind (Ends.of_ok (writeToPeer_failure h rfl) (ends_pure
        ⟨_, _, _, hstart, @LinkStops.writeFailed _ _ _ l.targetPeer.writes⟩))

theorem viaTunnel_eq_zoom (d : Direction) : (viaTunnel d : EStateM Stop (Session η) Bool)
    = zoom (fun s => s.link d) (fun l s => s.putLink d l) forwardViaTunnelStep := by
  cases d with
  | clientToRemote => rfl
  | remoteToClient => rfl

/-- One operation of `tunnelStep` on the machine. -/
theorem tunnelStep_run (t : Tunnel η) (d : Direction) (htop : t.point d = .top) :
    ∃ running t', tunnelStep d t.session = .ok running t'.session ∧ Tunnel.Run t t' ∧
      t'.point = Function.update t.point d (if running then .top else .stopped) := by
  have hmoves := forwardViaTunnelStep_moves (t.session.link d)
  unfold tunnelStep
  rw [viaTunnel_eq_zoom]
  cases hr : forwardViaTunnelStep (t.session.link d) with
  | error e l =>
    obtain rfl := hmoves.error hr
    refine ⟨true, t, ?_, .refl, ?_⟩
    · simp only [zoom, hr]
    · rw [if_pos rfl, ← htop, Function.update_eq_self]
  | ok running l =>
    have hrun := hmoves.ok hr
    cases running with
    | true =>
      refine ⟨true, _, ?_, LinkRun.tunnel hrun htop rfl, rfl⟩
      simp only [zoom, hr]
    | false =>
      obtain ⟨p, u, c, hrun, hstop⟩ := hrun
      refine ⟨false, _, ?_,
        LinkRun.tunnel_stop hrun hstop htop rfl (close_run (t.session.putLink d l)), rfl⟩
      simp only [zoom, hr]
      exact bind_ok (close_run _)

theorem resume_run (t : Tunnel η) (d : Direction) (running : Bool)
    (h : t.point d = if running then .top else .stopped) :
    ∃ running' t', resume d running t.session = .ok running' t'.session ∧ Tunnel.Run t t' ∧
      t'.point = Function.update t.point d (if running' then .top else .stopped) := by
  cases running with
  | true => exact tunnelStep_run t d h
  | false =>
    refine ⟨false, t, rfl, .refl, ?_⟩
    rw [← h, Function.update_eq_self]

/-- **The tunnel under a schedule is an interleaving.**  It returns once both coroutines have
ended. -/
theorem relayTunnelBidirectional_run (schedule : List Direction) (up down : Bool) (t : Tunnel η)
    (hup : t.point .clientToRemote = if up then .top else .stopped)
    (hdown : t.point .remoteToClient = if down then .top else .stopped) :
    ∃ t', Tunnel.Run t t' ∧
      (relayTunnelBidirectional schedule up down t.session = .ok ⟨⟩ t'.session ∧
          (∀ d, t'.point d = .stopped) ∨
        relayTunnelBidirectional schedule up down t.session = .error .outOfFuel t'.session) := by
  induction schedule generalizing up down t with
  | nil =>
    refine ⟨t, .refl, ?_⟩
    rw [relayTunnelBidirectional]
    by_cases h : (up || down) = true
    · rw [if_pos h]
      exact Or.inr rfl
    · rw [if_neg h]
      rw [Bool.or_eq_true, not_or, Bool.not_eq_true, Bool.not_eq_true] at h
      rw [h.1] at hup
      rw [h.2] at hdown
      refine Or.inl ⟨rfl, fun d => ?_⟩
      cases d with
      | clientToRemote => exact hup
      | remoteToClient => exact hdown
  | cons d schedule ih =>
    cases d with
    | clientToRemote =>
      obtain ⟨up', t₁, hr, hrun, hpoint⟩ := resume_run t .clientToRemote up hup
      have hdown' : t₁.point .remoteToClient = if down then .top else .stopped := by
        rw [hpoint, Function.update_of_ne (by decide), hdown]
      obtain ⟨t₂, hrun₂, hrelay⟩ := ih up' down t₁ (by rw [hpoint, Function.update_self]) hdown'
      refine ⟨t₂, hrun.trans hrun₂, ?_⟩
      rw [relayTunnelBidirectional, bind_ok hr]
      exact hrelay
    | remoteToClient =>
      obtain ⟨down', t₁, hr, hrun, hpoint⟩ := resume_run t .remoteToClient down hdown
      have hup' : t₁.point .clientToRemote = if up then .top else .stopped := by
        rw [hpoint, Function.update_of_ne (by decide), hup]
      obtain ⟨t₂, hrun₂, hrelay⟩ := ih up down' t₁ hup' (by rw [hpoint, Function.update_self])
      refine ⟨t₂, hrun.trans hrun₂, ?_⟩
      rw [relayTunnelBidirectional, bind_ok hr]
      exact hrelay

/-- What the target of a direction accepted is a prefix of what was buffered for it and what was
received from the source of this direction. -/
def Half.Delivered (h₀ h : Half) : Prop :=
  ∃ tx rx, h.sent = h₀.sent ++ tx ∧ tx <+: h₀.buffer ++ rx ∧
    (∀ o ∈ rx, o.origins = [h₀.source.id]) ∧
    text rx <+: h₀.incoming.flatMap ReadOutcome.delivered

/-- **Delivery by the tunnel, under any interleaving.**  The schedules of the tunnel are among the
interleavings; where the tunnel returns both coroutines have ended, and the end of one has closed
the session. -/
theorem tunnel_delivers (s₀ : Session η) (h₀ : s₀.closed = false) :
    (∀ schedule, ∃ t, Tunnel.Run (Tunnel.start s₀) t ∧
      (relayTunnelBidirectional schedule true true s₀ = .ok ⟨⟩ t.session ∧
          (∀ d, t.point d = .stopped) ∧ t.cause.isSome = true ∨
        relayTunnelBidirectional schedule true true s₀ = .error .outOfFuel t.session)) ∧
    ∀ t, Tunnel.Run (Tunnel.start s₀) t →
      (∀ d, (s₀.link d).half.Delivered (t.session.link d).half) ∧
      (t.session.closed = true ↔ t.cause.isSome = true) ∧
      (∀ d, t.cause = some (d, .eof) → (s₀.link d).half.AllSent (t.session.link d).half) ∧
      (t.session.closed = true → ∀ t', Tunnel.Run t t' → ∀ d,
        (t'.session.link d).half.sent = (t.session.link d).half.sent) := by
  refine ⟨fun schedule => ?_, fun t hr => ?_⟩
  · obtain ⟨t, hr, hrelay⟩ :=
      relayTunnelBidirectional_run schedule true true (Tunnel.start s₀) rfl rfl
    have hinv := hr.inv (Tunnel.inv_start h₀)
    rcases hrelay with ⟨hok, hpoints⟩ | hcut
    · have hclosed := hinv.stopped .clientToRemote (hpoints .clientToRemote)
      exact ⟨t, hr, .inl ⟨hok, hpoints, hinv.cause.mp hclosed⟩⟩
    · exact ⟨t, hr, .inr hcut⟩
  have hinv := hr.inv (Tunnel.inv_start h₀)
  refine ⟨fun d => ?_, hinv.cause, hinv.eof, fun hc t' hr' => (hr'.quiet hinv hc).2⟩
  obtain ⟨tx, rx, hb⟩ := hinv.books d
  refine ⟨tx, rx, hb.sent, hb.front, hb.origins, ?_⟩
  rw [hb.stream, List.append_assoc]
  exact List.prefix_append _ _

/-- A tunnel with one byte already received behind the CONNECT request; the client has closed. -/
def helloSession : Session Unit where
  clientSock := scriptedSocket 0 []
  remoteSock := scriptedSocket 1 []
  clientReadBuffer := received ⟨0, ⟨[], 80⟩⟩ (ascii "h")
  remoteReadBuffer := []
  remoteState := ⟨ascii "a", ascii "80", true⟩
  closed := false
  script := ()
  dials := []
  resolutions := []
  nextConnection := 2

theorem tunnel_delivers_hello : ∃ t, Tunnel.Run (Tunnel.start helloSession) t ∧
    t.cause = some (.clientToRemote, .eof) ∧
    (helloSession.link .clientToRemote).half.AllSent (t.session.link .clientToRemote).half := by
  set l := helloSession.link .clientToRemote with hl
  have hwrite : LinkRun (.top, l) (.writing 1 1, l.accepted [] l.readBuffer) :=
    @LinkRun.write l 1 [] (by decide) rfl (by decide)
  have hdrained := hwrite.tail (c := (.top, l.written [] 1)) .finish
  have hread : LinkRun (.top, l) (.received ⟨some .eof, []⟩, l.written [] 1) :=
    hdrained.trans (LinkRun.read rfl rfl)
  have hstop : LinkStops (.received ⟨some .eof, []⟩) (l.written [] 1) .eof (l.written [] 1) :=
    .eof (n := 0) rfl
  have hrun := hread.tunnel_stop hstop (t := Tunnel.start helloSession) rfl hl.symm (close_run _)
  exact ⟨_, hrun, rfl, ((tunnel_delivers helloSession rfl).2 _ hrun).2.2.1 _ rfl⟩

end ProxyPP.Http
