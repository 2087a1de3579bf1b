import ProxyPP.Http.Completion
import ProxyPP.Http.Streams

/-!
# ProxyPP.Http.ExchangeStreams — exchanges as functions of two streams

An exchange with a connected remote reads a head and a body from the client and a head and a body
from the remote.  Where reads bring data and writes succeed, all of it is a function of what the two
sides send: `headOn` for a head, `requestOn` and `responseOn` for the two halves.  Neither the reads
nor what is buffered between them make a difference.

Of the parsers this takes that more bytes do not change their verdict (`Steady`).
-/

namespace ProxyPP.Http

open ProxyPP ProxyPP.Lib ProxyPP.Rules

variable {η α : Type}

/-! ## Heads -/

/-- More bytes do not change the verdict of the parser. -/
structure Steady (parse : Bytes → ParseResult α) : Prop where
  done : ∀ {buffer : Bytes} {value : α} {consumed : ℕ}, parse buffer = .done value consumed →
    consumed ≤ buffer.length ∧ ∀ rest, parse (buffer ++ rest) = .done value consumed
  failed : ∀ {buffer : Bytes}, parse buffer = .failed → ∀ rest, parse (buffer ++ rest) = .failed

/-- `async_read_header`: the head or the lack of one, and what is left of the stream. -/
def headOn (parse : Bytes → ParseResult α) (atEof : Bool) (stream : Bytes) :
    Except Stop (Option α) × Bytes :=
  match if stream = [] then .needMore else parse stream with
  | .done value consumed => (.ok (some value), stream.drop consumed)
  | .failed => (.ok none, stream)
  | .needMore => (if atEof then .ok none else .error .blocked, stream)

section Heads

variable {parse : Bytes → ParseResult α}

/-- What `async_read_header` keeps until it returns. -/
structure Reading (l s : Link) : Prop where
  source : s.fromPeer.Delivers
  atEof : s.fromPeer.atEof = l.fromPeer.atEof
  target : s.targetPeer = l.targetPeer
  ahead : s.ahead = l.ahead

theorem fetchMore_reading {l s : Link} (h : Reading l s) (hs : s.fromPeer.stream ≠ []) :
    ∃ t, (fetchMore : EStateM Stop Link (Unit ⊕ Option (α × List Octet))) s = .ok (.inl ()) t ∧
      Reading l t ∧ t.fromPeer.incoming.length < s.fromPeer.incoming.length := by
  obtain ⟨r, t, hr, rfl, hsrc, hahead, hlt⟩ := fetchMore_flows (α := α) h.source hs
  obtain ⟨outcome, u, hfetch, hu⟩ := bind_eq_ok.mp hr
  obtain ⟨rx, hf⟩ := (fetch_ends s).ok hfetch
  have htu : t = u := by
    by_cases hec : outcome.ec.isSome = true
    · rw [if_pos hec] at hu
      exact (EStateM.Result.ok.inj hu).2.symm
    · rw [if_neg hec] at hu
      exact (EStateM.Result.ok.inj hu).2.symm
  subst htu
  refine ⟨t, hr, ⟨hsrc, ?_, hf.target.trans h.target, hahead.trans h.ahead⟩, hlt⟩
  rw [hf.fromPeer]
  exact h.atEof

/-- **`async_read_header` follows the stream.** -/
theorem asyncReadHeader_computes (hp : Steady parse) {l : Link} (h : l.fromPeer.Delivers) :
    Settles (asyncReadHeader parse) l
      (fun q t => t.targetPeer = l.targetPeer ∧ t.fromPeer.Delivers ∧
        t.fromPeer.atEof = l.fromPeer.atEof ∧
        headOn parse l.fromPeer.atEof l.ahead = (.ok (q.map Prod.fst), t.ahead))
      fun e t => t.targetPeer = l.targetPeer ∧ t.fromPeer.Delivers ∧
        t.fromPeer.atEof = l.fromPeer.atEof ∧
        headOn parse l.fromPeer.atEof l.ahead = (.error e, t.ahead) := by
  refine settles_whileLoop (fun _ s => Reading l s) (fun _ s => s.fromPeer.incoming.length) ?_
    ⟨h, rfl, rfl, rfl⟩
  rintro - s hs
  by_cases hwait : s.readBuffer = [] ∨ parse (text s.readBuffer) = .needMore
  · -- the parser has to be given more
    have hstep : asyncReadHeaderStep parse () s = fetchMore s := by
      rw [asyncReadHeaderStep, bind_ok (get_run s)]
      by_cases hbuf : s.readBuffer = []
      · rw [if_pos hbuf]
      · rw [if_neg hbuf, hwait.resolve_left hbuf]
    by_cases hstream : s.fromPeer.stream = []
    · have hend := hstep.trans (fetchMore_end hs.source hstream)
      rw [hs.atEof] at hend
      have hahead : l.ahead = text s.readBuffer := by
        rw [← hs.ahead, Link.ahead, hstream, List.append_nil]
      have hhead : headOn parse l.fromPeer.atEof l.ahead
          = (if l.fromPeer.atEof then .ok none else .error .blocked, s.ahead) := by
        rw [headOn, hs.ahead, hahead]
        by_cases hbuf : s.readBuffer = []
        · rw [if_pos (by rw [hbuf]; rfl)]
        · have htext : text s.readBuffer ≠ [] := fun hnil => hbuf (List.map_eq_nil_iff.mp hnil)
          rw [if_neg htext, hwait.resolve_left hbuf]
      cases hat : l.fromPeer.atEof with
      | false =>
        rw [hat] at hend hhead
        exact .inr (.inr (.inl ⟨_, s, hend, hs.target, hs.source, hs.atEof.trans hat, hhead⟩))
      | true =>
        rw [hat] at hend hhead
        exact .inr (.inl ⟨none, s, hend, hs.target, hs.source, hs.atEof.trans hat, hhead⟩)
    · obtain ⟨t, hr, ht, hlt⟩ := fetchMore_reading hs hstream
      exact .inl ⟨(), t, hstep.trans hr, ht, hlt⟩
  obtain ⟨hbuf, hmore⟩ := not_or.mp hwait
  have hne : l.ahead ≠ [] := hs.ahead ▸ fun hnil => hbuf (nothing_ahead.mp hnil).1
  have hsplit : l.ahead = text s.readBuffer ++ s.fromPeer.stream := hs.ahead.symm
  cases hparse : parse (text s.readBuffer) with
  | needMore => exact absurd hparse hmore
  | failed =>
    refine .inr (.inl ⟨none, s, ?_, hs.target, hs.source, hs.atEof, ?_⟩)
    · rw [asyncReadHeaderStep, bind_ok (get_run s), if_neg hbuf, hparse]
      rfl
    · rw [headOn, if_neg hne, hsplit, hp.failed hparse, ← hsplit, hs.ahead]
      rfl
  | done value consumed =>
    obtain ⟨hle, hdone⟩ := hp.done hparse
    refine .inr (.inl ⟨some (value, s.readBuffer.take consumed),
      { s with readBuffer := s.readBuffer.drop consumed }, ?_, hs.target, hs.source, hs.atEof, ?_⟩)
    · rw [asyncReadHeaderStep, bind_ok (get_run s), if_neg hbuf, hparse]
      rfl
    · have hrest : (text s.readBuffer ++ s.fromPeer.stream).drop consumed
          = text (s.readBuffer.drop consumed) ++ s.fromPeer.stream := by
        rw [List.drop_append_of_le_length hle, text, ← List.map_drop]
        rfl
      rw [headOn, if_neg hne, hsplit, hdone]
      show (Except.ok (some value), (text s.readBuffer ++ s.fromPeer.stream).drop consumed) = _
      rw [hrest]
      rfl

end Heads

/-! ## The halves -/

/-- What a part of a session comes to: its value or why it stops, the bytes it sends, what it leaves
of its stream, and the script state. -/
structure Outcome (η ρ : Type) where
  result : Except Stop ρ
  sent : Bytes
  rest : Bytes
  script : η

def Fate.result : Fate → Except Stop Bool
  | .returns ok => .ok ok
  | .waits => .error .blocked
  | .spins => .error .outOfFuel

/-- A body is sent as far as the stream is not left. -/
def bodyOutcome (script : η) (stream : Bytes) (body : Fate × Bytes) : Outcome η Bool :=
  ⟨body.1.result, stream.take (stream.length - body.2.length), body.2, script⟩

/-- `ForwardRequestBody` -/
def requestBodyOn (info : RequestBodyInfo) (atEof : Bool) (stream : Bytes) : Fate × Bytes :=
  match info.framing with
  | .contentLength => exactlyOn info.contentLength atEof stream
  | .chunked => chunkedOn atEof stream
  | .none => (.returns true, stream)

/-- `ForwardResponseBody` -/
def responseBodyOn (info : ResponseBodyInfo) (atEof : Bool) (stream : Bytes) : Fate × Bytes :=
  match info.framing with
  | .contentLength => exactlyOn info.contentLength atEof stream
  | .chunked => chunkedOn atEof stream
  | .closeDelimited => untilEofOn atEof
  | .tunnel => (.returns false, stream)
  | .none => (.returns true, stream)

/-- A head is sent, and something follows. -/
def Outcome.behind {ρ ρ' : Type} (o : Outcome η ρ) (head : Bytes) (f : ρ → ρ') : Outcome η ρ' :=
  ⟨o.result.map f, head ++ o.sent, o.rest, o.script⟩

section Definitions

variable (env : Env η)

/-- The upstream half, on what follows the head of the request. -/
def requestOn (parser : RequestParser) (info : RemoteInfo) (script : η) (atEof : Bool)
    (stream : Bytes) : Outcome η (Option RequestHeader) :=
  match buildRemoteRequestHeader env.beast parser.header info with
  | .error what => ⟨.error (.thrown what), [], stream, script⟩
  | .ok built =>
    let ruled := ruledRequest env.ruleEngine env.ruleHttpConfig ⟨script, built⟩
    match remoteRequest env.beast ruled.message with
    | .error what => ⟨.error (.thrown what), [], stream, ruled.script⟩
    | .ok request =>
      (bodyOutcome ruled.script stream
        (requestBodyOn (determineRequestBodyInfo parser) atEof stream)).behind
        (env.beast.serializeRequest request) fun ok => if ok then some ruled.message else none

/-- The downstream half. -/
def responseOn (parser : RequestParser) (request : RequestHeader) (script : η) (atEof : Bool)
    (stream : Bytes) : Outcome η ExchangeResult :=
  match headOn env.beast.parseResponse atEof stream with
  | (.error e, rest) => ⟨.error e, [], rest, script⟩
  | (.ok none, rest) => ⟨.ok .close, [], rest, script⟩
  | (.ok (some response), rest) =>
    let ruled := ruledResponse env.ruleEngine env.ruleHttpConfig request ⟨script, response.header⟩
    (bodyOutcome ruled.script rest
      (responseBodyOn (determineResponseBodyInfo parser response) atEof rest)).behind
      (env.beast.serializeResponse (relayedResponse env.beast ruled.message))
      fun ok => if ok && parser.keepAlive && response.keepAlive then .continue else .close

/-- The session with another bound of the observation. -/
def Env.withFuel (fuel : ℕ) : Env η := { env with fuel := fuel }

end Definitions

/-- From `s` to `t` the link did what the outcome says. -/
structure Passed {ρ : Type} (link : Session η → Link) (o : Outcome η ρ) (s t : Session η) :
    Prop where
  flows : (link t).Flows
  sent : text (link t).targetPeer.sentOctets = text (link s).targetPeer.sentOctets ++ o.sent
  rest : (link t).ahead = o.rest
  script : t.script = o.script

/-- With enough fuel `m` comes to the outcome. -/
def ComputesOn {ρ : Type} (link : Session η → Link) (m : ℕ → EStateM Stop (Session η) ρ)
    (s : Session η) (o : Outcome η ρ) : Prop :=
  Settles m s (fun a t => o.result = .ok a ∧ Passed link o s t)
    fun e t => o.result = .error e ∧ Passed link o s t

section Links

variable {link : Session η → Link} {put : Link → Session η → Session η}

theorem Fate.result_of_stop {fate : Fate} {e : Stop} (h : fate.stop = some e) :
    fate.result = .error e := by
  cases fate with
  | returns ok => cases h
  | waits => cases h; rfl
  | spins => cases h; rfl

theorem passed_body {s : Session η} {l : Link} (hput : link (put l s) = l)
    (hscript : (put l s).script = s.script) (hk : Kept (link s) l) {body : Fate × Bytes}
    (hrest : body.2 = l.ahead) :
    Passed link (bodyOutcome s.script (link s).ahead body) s (put l s) := by
  obtain ⟨tx, rx, hm⟩ := hk.moved
  refine ⟨hput.symm ▸ hk.flows, ?_, by rw [hput]; exact hrest.symm, hscript⟩
  rw [hput, hm.sentOctets, text_append]
  show _ = _ ++ (link s).ahead.take ((link s).ahead.length - body.2.length)
  rw [hm.ahead, hrest, List.length_append, Nat.add_sub_cancel, List.take_left]

/-- A body on its way. -/
theorem Computes.computesOn {m : ℕ → EStateM Stop Link Bool} {s : Session η} {body : Fate × Bytes}
    (h : Computes m (link s) body) (hput : ∀ l, link (put l s) = l)
    (hscript : ∀ l, (put l s).script = s.script) :
    ComputesOn link (fun fuel => zoom link put (m fuel)) s
      (bodyOutcome s.script (link s).ahead body) := by
  refine settles_zoom (h.mono ?_ ?_)
  · rintro ok l ⟨hk, rfl⟩
    exact ⟨rfl, passed_body (hput l) (hscript l) hk rfl⟩
  · rintro e l ⟨hk, hstop, hrest⟩
    exact ⟨Fate.result_of_stop hstop, passed_body (hput l) (hscript l) hk hrest⟩

/-- No body. -/
theorem computesOn_pure {s : Session η} (h : (link s).Flows) (ok : Bool) :
    ComputesOn link (fun _ => pure ok) s
      (bodyOutcome s.script (link s).ahead (.returns ok, (link s).ahead)) := by
  refine settles_ok rfl ⟨rfl, h, ?_, rfl, rfl⟩
  show _ = _ ++ (link s).ahead.take ((link s).ahead.length - (link s).ahead.length)
  rw [Nat.sub_self, List.take_zero, List.append_nil]

/-- From `s` to `t` only the source was read from. -/
structure ReadOn (link : Session η → Link) (s t : Session η) : Prop where
  source : (link t).fromPeer.Delivers
  target : (link t).targetPeer = (link s).targetPeer
  atEof : (link t).fromPeer.atEof = (link s).fromPeer.atEof
  script : t.script = s.script

theorem ReadOn.flows {s t : Session η} (h : ReadOn link s t) (hs : (link s).Flows) :
    (link t).Flows := ⟨h.source, h.target ▸ hs.target⟩

theorem ReadOn.passed {ρ : Type} {s t : Session η} {o : Outcome η ρ} (h : ReadOn link s t)
    (hs : (link s).Flows) (hsent : o.sent = []) (hrest : (link t).ahead = o.rest)
    (hscript : o.script = s.script) : Passed link o s t :=
  ⟨h.flows hs, by rw [h.target, hsent, List.append_nil], hrest, h.script.trans hscript.symm⟩

variable (put) in
/-- A head on its way. -/
theorem readHeader_computes {parse : Bytes → ParseResult α} (hp : Steady parse) {s : Session η}
    (h : (link s).fromPeer.Delivers) (hput : ∀ l, link (put l s) = l)
    (hscript : ∀ l, (put l s).script = s.script) :
    Settles (fun fuel => zoom link put (asyncReadHeader parse fuel)) s
      (fun q t => ReadOn link s t ∧ headOn parse (link s).fromPeer.atEof (link s).ahead
        = (.ok (q.map Prod.fst), (link t).ahead))
      fun e t => ReadOn link s t ∧ headOn parse (link s).fromPeer.atEof (link s).ahead
        = (.error e, (link t).ahead) := by
  have hread : ∀ l : Link, l.targetPeer = (link s).targetPeer → l.fromPeer.Delivers →
      l.fromPeer.atEof = (link s).fromPeer.atEof → ReadOn link s (put l s) := by
    intro l htarget hsrc hat
    refine ⟨?_, ?_, ?_, hscript l⟩
    · rw [hput]
      exact hsrc
    · rw [hput, htarget]
    · rw [hput, hat]
  refine settles_zoom ((asyncReadHeader_computes hp h).mono ?_ ?_)
  · rintro q l ⟨htarget, hsrc, hat, hhead⟩
    exact ⟨hread l htarget hsrc hat, by rw [hput, hhead]⟩
  · rintro e l ⟨htarget, hsrc, hat, hhead⟩
    exact ⟨hread l htarget hsrc hat, by rw [hput, hhead]⟩

/-- What follows a head that was sent. -/
theorem ComputesOn.behind {ρ ρ' : Type} {m : ℕ → EStateM Stop (Session η) ρ}
    {k : ρ → EStateM Stop (Session η) ρ'} {s t : Session η} {o : Outcome η ρ} {head : Bytes}
    {f : ρ → ρ'} (h : ComputesOn link m t o)
    (hhead : text (link t).targetPeer.sentOctets = text (link s).targetPeer.sentOctets ++ head)
    (hk : ∀ a u, (link u).Flows → k a u = .ok (f a) u) :
    Settles (fun fuel => m fuel >>= k) t
      (fun a u => (o.behind head f).result = .ok a ∧ Passed link (o.behind head f) s u)
      fun e u => (o.behind head f).result = .error e ∧ Passed link (o.behind head f) s u := by
  have hpassed : ∀ u, Passed link o t u → Passed link (o.behind head f) s u := by
    intro u hu
    refine ⟨hu.flows, ?_, hu.rest, hu.script⟩
    rw [hu.sent, hhead, List.append_assoc]
    rfl
  refine Settles.bind h ?_ fun a u ⟨ha, hu⟩ => settles_ok (hk a u hu.flows) ⟨?_, hpassed u hu⟩
  · rintro e u ⟨he, hu⟩
    refine ⟨?_, hpassed u hu⟩
    show o.result.map f = _
    rw [he]
    rfl
  · show o.result.map f = _
    rw [ha]
    rfl

end Links

section Halves

variable {env : Env η}

variable (env) in
theorem forwardRequestBody_computes (parser : RequestParser) {s : Session η} (h : s.upLink.Flows) :
    ComputesOn Session.upLink (fun fuel => forwardRequestBody (env.withFuel fuel) parser) s
      (bodyOutcome s.script s.upLink.ahead
        (requestBodyOn (determineRequestBodyInfo parser) s.clientSock.atEof s.upLink.ahead)) := by
  unfold forwardRequestBody
  rcases determineRequestBodyInfo parser with ⟨framing, contentLength⟩
  cases framing with
  | contentLength =>
    exact (forwardExactly_computes h contentLength).computesOn (fun _ => rfl) fun _ => rfl
  | chunked => exact (forwardChunked_computes h).computesOn (fun _ => rfl) fun _ => rfl
  | none => exact computesOn_pure h true

variable (env) in
theorem forwardResponseBody_computes (parser : RequestParser) (response : ResponseParser)
    {s : Session η} (h : s.downLink.Flows) :
    ComputesOn Session.downLink
      (fun fuel => forwardResponseBody (env.withFuel fuel) parser response) s
      (bodyOutcome s.script s.downLink.ahead (responseBodyOn
        (determineResponseBodyInfo parser response) s.remoteSock.atEof s.downLink.ahead)) := by
  unfold forwardResponseBody
  rcases determineResponseBodyInfo parser response with ⟨framing, contentLength⟩
  cases framing with
  | contentLength =>
    exact (forwardExactly_computes h contentLength).computesOn (fun _ => rfl) fun _ => rfl
  | chunked => exact (forwardChunked_computes h).computesOn (fun _ => rfl) fun _ => rfl
  | closeDelimited => exact (forwardUntilEof_computes h).computesOn (fun _ => rfl) fun _ => rfl
  | tunnel => exact computesOn_pure h false
  | none => exact computesOn_pure h true

theorem asyncWrite_flows (octets : List Octet) {s : Socket} (h : s.WritesOk) :
    ∃ s', asyncWrite octets s = .ok (false, octets.length) s' ∧ s'.WritesOk ∧
      text s'.sentOctets = text s.sentOctets ++ text octets ∧
      s' = { s with writes := s'.writes, sent := s'.sent } := by
  obtain ⟨hopen, hws⟩ := h
  refine ⟨{ s with writes := s.writes.tail, sent := s.sent ++ [⟨s.connection, octets⟩] }, ?_,
    ⟨hopen, fun w hw => hws w (List.mem_of_mem_tail hw)⟩, ?_, rfl⟩
  · rw [asyncWrite, if_pos hopen]
    cases hin : s.writes with
    | nil => rfl
    | cons w ws =>
      obtain rfl := hws w (by rw [hin]; exact List.mem_cons_self)
      rfl
  · simp [Socket.sentOctets]

theorem writeToRemote_flows (octets : List Octet) {s : Session η} (h : s.upLink.Flows) :
    ∃ t, writeToRemote octets s = .ok true t ∧ t.upLink.Flows ∧ SentToRemote s t (text octets) ∧
      t.clientSock = s.clientSock ∧ t.clientReadBuffer = s.clientReadBuffer ∧
      t.script = s.script := by
  obtain ⟨r, hr, hok, hsent, -⟩ := asyncWrite_flows octets h.target
  refine ⟨{ s with remoteSock := r }, ?_, ⟨h.source, hok⟩, hsent, rfl, rfl, rfl⟩
  have hzoom : zoom Session.remoteSock (fun r s => { s with remoteSock := r }) (asyncWrite octets) s
      = .ok (false, octets.length) { s with remoteSock := r } := zoom_ok hr
  exact bind_ok hzoom

theorem writeToClient_flows (octets : List Octet) {s : Session η} (h : s.downLink.Flows) :
    ∃ t, writeToClient octets s = .ok true t ∧ t.downLink.Flows ∧ SentToClient s t (text octets) ∧
      t.remoteSock = s.remoteSock ∧ t.remoteReadBuffer = s.remoteReadBuffer ∧
      t.script = s.script := by
  obtain ⟨c, hc, hok, hsent, -⟩ := asyncWrite_flows octets h.target
  refine ⟨{ s with clientSock := c }, ?_, ⟨h.source, hok⟩, hsent, rfl, rfl, rfl⟩
  have hzoom : zoom Session.clientSock (fun c s => { s with clientSock := c }) (asyncWrite octets) s
      = .ok (false, octets.length) { s with clientSock := c } := zoom_ok hc
  exact bind_ok hzoom

variable (env) in
/-- The upstream half follows the client's stream. -/
theorem forwardRequest_computes (parser : RequestParser) (raw : List Octet) (info : RemoteInfo)
    {s : Session η} (h : s.upLink.Flows) :
    ComputesOn Session.upLink (fun fuel => forwardRequest (env.withFuel fuel) parser raw info) s
      (requestOn env parser info s.script s.clientSock.atEof s.upLink.ahead) := by
  unfold forwardRequest requestOn
  cases hbuilt : buildRemoteRequestHeader env.beast parser.header info with
  | error what =>
    have hthrow : orThrow (buildRemoteRequestHeader env.beast parser.header info) s
        = .error (.thrown what) s := by rw [hbuilt]; rfl
    exact settles_bind_error hthrow ⟨rfl, h, (List.append_nil _).symm, rfl, rfl⟩
  | ok built =>
    have hok : orThrow (buildRemoteRequestHeader env.beast parser.header info) s
        = .ok built s := by rw [hbuilt]; rfl
    have hrules : applyRequestRules env built s
        = .ok (ruledRequest env.ruleEngine env.ruleHttpConfig ⟨s.script, built⟩).message
          { s with script :=
            (ruledRequest env.ruleEngine env.ruleHttpConfig ⟨s.script, built⟩).script } := rfl
    refine Settles.after hok (Settles.after hrules ?_)
    dsimp only
    generalize ruledRequest env.ruleEngine env.ruleHttpConfig ⟨s.script, built⟩ = ruled
    set t : Session η := { s with script := ruled.script }
    cases hrequest : remoteRequest env.beast ruled.message with
    | error what =>
      have hthrow : writeRemoteRequestHeader env raw ruled.message t
          = .error (.thrown what) t := by rw [writeRemoteRequestHeader, hrequest]; rfl
      exact settles_bind_error hthrow ⟨rfl, h, (List.append_nil _).symm, rfl, rfl⟩
    | ok request =>
      obtain ⟨u, hwrite, hflows, hsent, hclient, hbuffer, hscript⟩ := writeToRemote_flows
        (madeFrom raw (env.beast.serializeRequest request)) (s := t) h
      have hhead : writeRemoteRequestHeader env raw ruled.message t = .ok true u := by
        rw [writeRemoteRequestHeader, hrequest]
        exact hwrite
      have hahead : u.upLink.ahead = s.upLink.ahead := by
        rw [Link.ahead, Session.upLink, hclient, hbuffer]
        rfl
      have hbody := forwardRequestBody_computes env parser hflows
      rw [hahead, hscript, hclient] at hbody
      refine Settles.after hhead ?_
      rw [text_madeFrom] at hsent
      exact hbody.behind hsent fun ok v _ => by cases ok <;> rfl

/-- A response that was forwarded, once the sockets are known to be open. -/
theorem shouldKeepAlive_flows (parser : RequestParser) (response : ResponseParser) {s : Session η}
    (h : s.downLink.Flows) :
    shouldKeepAlive parser response s = .ok (parser.keepAlive && response.keepAlive) s := by
  have hclient : s.clientSock.isOpen = true := h.target.1
  have hremote : s.remoteSock.isOpen = true := h.source.1
  rw [shouldKeepAlive, bind_ok (get_run s), hclient, hremote, Bool.and_true, Bool.and_true]
  rfl

/-- The downstream half follows the remote's stream. -/
theorem forwardResponse_computes (hp : Steady env.beast.parseResponse) (parser : RequestParser)
    (request : RequestHeader) {s : Session η} (h : s.downLink.Flows) :
    ComputesOn Session.downLink (fun fuel => forwardResponse (env.withFuel fuel) parser request) s
      (responseOn env parser request s.script s.remoteSock.atEof s.downLink.ahead) := by
  have hread : Settles (fun fuel => readRemoteResponseHeader (env.withFuel fuel)) s
      (fun q t => ReadOn Session.downLink s t ∧ headOn env.beast.parseResponse
        s.remoteSock.atEof s.downLink.ahead = (.ok (q.map Prod.fst), t.downLink.ahead))
      fun e t => ReadOn Session.downLink s t ∧ headOn env.beast.parseResponse
        s.remoteSock.atEof s.downLink.ahead = (.error e, t.downLink.ahead) :=
    readHeader_computes Session.putDownLink hp h.source (fun _ => rfl) fun _ => rfl
  refine hread.bind ?_ ?_
  · rintro e t ⟨ht, hhead⟩
    rw [responseOn, hhead]
    exact ⟨rfl, ht.passed h rfl rfl rfl⟩
  rintro (_ | ⟨response, raw⟩) t ⟨ht, hhead⟩
  · rw [responseOn, hhead]
    exact settles_ok rfl ⟨rfl, ht.passed h rfl rfl rfl⟩
  rw [responseOn, hhead]
  have hrules : applyResponseRules env request response.header t
      = .ok (ruledResponse env.ruleEngine env.ruleHttpConfig request
          ⟨t.script, response.header⟩).message
        { t with script := (ruledResponse env.ruleEngine env.ruleHttpConfig request
          ⟨t.script, response.header⟩).script } := rfl
  refine Settles.after hrules ?_
  rw [← ht.script]
  dsimp only [Option.map_some]
  generalize ruledResponse env.ruleEngine env.ruleHttpConfig request
    ⟨t.script, response.header⟩ = ruled
  obtain ⟨u, hwrite, hflows, hsent, hremote, hbuffer, hscript⟩ := writeToClient_flows
    (madeFrom raw (env.beast.serializeResponse (relayedResponse env.beast ruled.message)))
    (s := { t with script := ruled.script }) (ht.flows h)
  have hahead : u.downLink.ahead = t.downLink.ahead := by
    rw [Link.ahead, Session.downLink, hremote, hbuffer]
    rfl
  have hbody := forwardResponseBody_computes env parser response hflows
  have hat : t.remoteSock.atEof = s.remoteSock.atEof := ht.atEof
  rw [hahead, hscript, hremote, hat] at hbody
  refine Settles.after hwrite ?_
  rw [SentToClient, text_madeFrom] at hsent
  refine hbody.behind ?_ fun ok v hv => ?_
  · rw [← ht.target]
    exact hsent
  · cases ok with
    | false => rfl
    | true =>
      rw [Bool.true_and, if_pos rfl, bind_ok (shouldKeepAlive_flows parser response hv)]
      cases parser.keepAlive && response.keepAlive <;> rfl

end Halves

end ProxyPP.Http
