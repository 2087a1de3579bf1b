import ProxyPP.Http.Bodies
import ProxyPP.Http.ReadHeader
import ProxyPP.Http.Truncation
import ProxyPP.Lib.Total

/-!
# ProxyPP.Http.Progress — the operations on a link return

On a link that flows, where reads bring data and writes succeed, an operation returns as soon as
what it waits for is ahead: the head for `async_read_header`, the body for `ForwardExactly` and
`ForwardChunked`.  Each takes at most as many iterations as `Link.Ready` provides for.

The scripts of the sockets only get shorter (`Follows`), so a link that flows goes on flowing.
-/

namespace ProxyPP.Http

open ProxyPP ProxyPP.Lib ProxyPP.Http.Details

variable {α : Type}

/-! ## What the scripts do -/

/-- The scripts of `s'` are what is left of those of `s`. -/
structure Socket.Follows (s s' : Socket) : Prop where
  isOpen : s'.isOpen = s.isOpen
  atEof : s'.atEof = s.atEof
  incoming : s'.incoming <:+ s.incoming
  writes : s'.writes <:+ s.writes

theorem Socket.Follows.refl (s : Socket) : s.Follows s :=
  ⟨rfl, rfl, List.suffix_rfl, List.suffix_rfl⟩

instance : IsPreorder Socket Socket.Follows where
  refl := Socket.Follows.refl
  trans _ _ _ h h' := ⟨h'.isOpen.trans h.isOpen, h'.atEof.trans h.atEof,
    h'.incoming.trans h.incoming, h'.writes.trans h.writes⟩

theorem Socket.Follows.delivers {s s' : Socket} (h : s.Follows s') (hs : s.Delivers) :
    s'.Delivers :=
  ⟨h.isOpen.trans hs.1, fun r hr => hs.2 r (h.incoming.subset hr)⟩

theorem Socket.Follows.writesOk {s s' : Socket} (h : s.Follows s') (hs : s.WritesOk) :
    s'.WritesOk :=
  ⟨h.isOpen.trans hs.1, fun w hw => hs.2 w (h.writes.subset hw)⟩

structure Link.Follows (l l' : Link) : Prop where
  source : l.fromPeer.Follows l'.fromPeer
  target : l.targetPeer.Follows l'.targetPeer

theorem Link.Follows.refl (l : Link) : l.Follows l := ⟨.refl _, .refl _⟩

instance : IsPreorder Link Link.Follows where
  refl := Link.Follows.refl
  trans _ _ _ h h' :=
    ⟨IsTrans.trans _ _ _ h.source h'.source, IsTrans.trans _ _ _ h.target h'.target⟩

theorem follows_asyncReadSome : Within Socket.Follows asyncReadSome := by
  intro s
  unfold Ends asyncReadSome
  by_cases hopen : s.isOpen = true
  · rw [if_pos hopen]
    cases hin : s.incoming with
    | nil =>
      cases hend : s.atEof with
      | true => exact .refl s
      | false => exact .refl s
    | cons r rest => exact ⟨rfl, rfl, by rw [hin]; exact List.suffix_cons r rest, List.suffix_rfl⟩
  · rw [if_neg hopen]
    exact .refl s

theorem follows_asyncWrite (octets : List Octet) : Within Socket.Follows (asyncWrite octets) := by
  intro s
  unfold Ends asyncWrite
  by_cases hopen : s.isOpen = true
  · rw [if_pos hopen]
    rcases hws : s.writes with _ | ⟨_ | k, ws⟩
    · exact ⟨rfl, rfl, List.suffix_rfl, by rw [hws]⟩
    · exact ⟨rfl, rfl, List.suffix_rfl, by rw [hws]; exact List.suffix_cons _ ws⟩
    · exact ⟨rfl, rfl, List.suffix_rfl, by rw [hws]; exact List.suffix_cons _ ws⟩
  · rw [if_neg hopen]
    exact .refl s

theorem follows_read : Within Link.Follows
    (zoom Link.fromPeer (fun s l => { l with fromPeer := s }) asyncReadSome) :=
  follows_asyncReadSome.zoom fun l _ h => ⟨h, .refl l.targetPeer⟩

theorem follows_commit (bytes : Bytes) : Within Link.Follows (commit bytes) :=
  within_modify fun _ => ⟨.refl _, .refl _⟩

theorem follows_readSomeFromPeer : Within Link.Follows readSomeFromPeer := by
  refine Within.bind follows_read fun r => ?_
  rcases r with ⟨_ | _ | _ | _, bytes⟩
  · refine within_ite (fun _ => within_pure _) fun _ => ?_
    exact Within.bind (follows_commit bytes) fun _ => within_pure _
  · exact Within.bind (follows_commit bytes) fun _ => within_pure _
  · exact Within.bind (follows_commit bytes) fun _ => within_pure _
  · exact within_pure _

theorem follows_writeToPeer (n : ℕ) : Within Link.Follows (writeToPeer n) := by
  refine Within.bind within_get fun l => ?_
  have hwrite : Within Link.Follows (zoom Link.targetPeer (fun s l => { l with targetPeer := s })
      (asyncWrite (l.readBuffer.take n))) :=
    (follows_asyncWrite _).zoom fun l _ h => ⟨.refl l.fromPeer, h⟩
  refine Within.bind hwrite fun r => ?_
  refine within_ite (fun _ => within_pure _) fun _ => ?_
  refine within_ite (fun _ => within_pure _) fun _ => ?_
  exact Within.bind (within_modify fun _ => ⟨.refl _, .refl _⟩) fun _ => within_pure _

theorem follows_asyncReadHeader (parse : Bytes → ParseResult α) (fuel : ℕ) :
    Within Link.Follows (asyncReadHeader parse fuel) := by
  have hmore : Within Link.Follows
      (fetchMore : EStateM Stop Link (Unit ⊕ Option (α × List Octet))) := by
    refine Within.bind (Within.bind follows_read fun r => Within.bind (follows_commit _) fun _ =>
      within_pure r) fun r => ?_
    exact within_ite (fun _ => within_pure _) fun _ => within_pure _
  refine within_whileLoop (fun _ => ?_) fuel ()
  refine Within.bind within_get fun l => within_ite (fun _ => hmore) fun _ => ?_
  cases parse (text l.readBuffer) with
  | needMore => exact hmore
  | failed => exact within_pure _
  | done value consumed =>
    exact Within.bind (within_modify fun _ => ⟨.refl _, .refl _⟩) fun _ => within_pure _

theorem follows_forwardExactly (fuel : ℕ) (contentLength : UInt64) :
    Within Link.Follows (forwardExactly fuel contentLength) := by
  refine within_whileLoop (fun bytesSent => ?_) fuel 0
  refine within_ite (fun _ => ?_) fun _ => within_pure _
  have hrefill : Within Link.Follows refill := by
    refine Within.bind within_get fun l => within_ite (fun _ => ?_) fun _ => within_pure _
    exact Within.bind follows_readSomeFromPeer fun _ => within_pure _
  refine Within.bind hrefill fun ok => within_ite (fun _ => ?_) fun _ => within_pure _
  refine Within.bind within_get fun l => Within.bind (follows_writeToPeer _) fun r => ?_
  cases r with
  | none => exact within_pure _
  | some n => exact within_pure _

theorem follows_forwardUntilEof (fuel : ℕ) : Within Link.Follows (forwardUntilEof fuel) := by
  have hall : ∀ n, Within Link.Follows (writeAll n) := fun n =>
    Within.bind (follows_writeToPeer n) fun _ => within_pure _
  have hloop : Within Link.Follows (whileLoop .outOfFuel forwardUntilEofStep fuel ()) := by
    refine within_whileLoop (fun _ => ?_) fuel ()
    refine Within.bind follows_readSomeFromPeer fun r => ?_
    cases r with
    | none => exact within_pure _
    | some res =>
      have hnext : ∀ written : Bool, Within Link.Follows
          (if written then if res.eof then pure (.inr true) else pure (.inl ())
            else pure (.inr false) : EStateM Stop Link (Unit ⊕ Bool)) := fun _ =>
        within_ite (fun _ => within_ite (fun _ => within_pure _) fun _ => within_pure _)
          fun _ => within_pure _
      exact within_ite (fun _ => Within.bind (hall _) hnext)
        fun _ => Within.bind (within_pure true) hnext
  have hnext : ∀ drained : Bool, Within Link.Follows
      (if drained then whileLoop .outOfFuel forwardUntilEofStep fuel () else pure false) :=
    fun _ => within_ite (fun _ => hloop) fun _ => within_pure _
  refine Within.bind within_get fun l => ?_
  exact within_ite (fun _ => Within.bind (hall _) hnext)
    fun _ => Within.bind (within_pure true) hnext

theorem follows_forwardChunked (fuel : ℕ) : Within Link.Follows (forwardChunked fuel) := by
  refine within_whileLoop (fun v => ?_) fuel _
  rcases v with ⟨state, len, size, rem⟩
  cases state with
  | readChunkSizeLine =>
    refine Within.bind within_get fun l => ?_
    cases findCrlf (text l.readBuffer) with
    | some k => exact within_pure _
    | none =>
      refine Within.bind follows_readSomeFromPeer fun r => ?_
      cases r with
      | none => exact within_pure _
      | some res => exact within_ite (fun _ => within_pure _) fun _ => within_pure _
  | parseChunkSizeLine =>
    refine Within.bind within_get fun l => ?_
    dsimp only
    cases Details.parseChunkSizeLine (Details.bufferPrefixToString (text l.readBuffer) len) with
    | some n => exact within_pure _
    | none => exact within_pure _
  | forwardChunkSizeLine =>
    refine Within.bind (follows_writeToPeer _) fun r => ?_
    cases r with
    | none => exact within_pure _
    | some n =>
      refine within_ite (fun _ => within_pure _) fun _ => ?_
      exact within_ite (fun _ => within_pure _) fun _ => within_pure _
  | forwardChunkDataWithCrlf =>
    refine Within.bind within_get fun l => within_ite (fun _ => ?_) fun _ => ?_
    · refine Within.bind follows_readSomeFromPeer fun r => ?_
      cases r with
      | none => exact within_pure _
      | some res => exact within_pure _
    · refine Within.bind (follows_writeToPeer _) fun r => ?_
      cases r with
      | none => exact within_pure _
      | some n => exact within_pure _
  | forwardTrailers =>
    refine Within.bind within_get fun l => ?_
    cases findCrlf (text l.readBuffer) with
    | none =>
      refine Within.bind follows_readSomeFromPeer fun r => ?_
      cases r with
      | none => exact within_pure _
      | some res => exact within_pure _
    | some k =>
      refine Within.bind (follows_writeToPeer _) fun r => ?_
      cases r with
      | none => exact within_pure _
      | some n => exact within_pure _
  | completed => exact within_pure _

/-! ## Links that flow -/

/-- Reads bring data as long as there is any, and writes succeed. -/
structure Link.Flows (l : Link) : Prop where
  source : l.fromPeer.Delivers
  target : l.targetPeer.WritesOk

/-- No operation on the link takes more than `fuel` iterations. -/
structure Link.Ready (fuel : ℕ) (l : Link) : Prop extends Link.Flows l where
  enough : 3 * l.left + 2 < fuel

theorem Link.Ready.follows {fuel : ℕ} {l l' : Link} (h : l.Ready fuel) (h' : l.Follows l')
    (hahead : l'.ahead.length ≤ l.ahead.length) : l'.Ready fuel := by
  refine ⟨⟨h'.source.delivers h.source, h'.target.writesOk h.target⟩, ?_⟩
  have hin := h'.source.incoming.length_le
  have henough := h.enough
  rw [Link.left] at henough ⊢
  omega

theorem ahead_ne_nil {l : Link} (hbuf : l.readBuffer = []) (h : l.ahead ≠ []) :
    l.fromPeer.stream ≠ [] := by
  rwa [Link.ahead, hbuf] at h

theorem refill_flows {l : Link} (h : l.Flows) (hne : l.ahead ≠ []) :
    Returns refill l fun ok l' => ok = true ∧ l'.Flows ∧ l'.ahead = l.ahead ∧
      l'.fromPeer.incoming.length ≤ l.fromPeer.incoming.length ∧ 0 < l'.readBuffer.length := by
  refine returns_get ?_
  by_cases hbuf : l.readBuffer.length = 0
  · rw [if_pos hbuf]
    have hs := ahead_ne_nil (List.length_eq_zero_iff.mp hbuf) hne
    obtain ⟨n, l', hn, hr, hahead, hsrc, htgt, hlt⟩ := readSomeFromPeer_data h.source hs
    obtain ⟨rx, hm, hres⟩ := (readSomeFromPeer_ends l).ok hr
    refine ⟨true, l', bind_ok hr, rfl, ⟨hsrc, htgt ▸ h.target⟩, hahead, le_of_lt hlt, ?_⟩
    have hlen := congrArg List.length hm.buffer
    have hpos := (hres _ rfl).2 rfl
    rw [List.nil_append, List.length_append] at hlen
    omega
  · rw [if_neg hbuf]
    exact returns_pure ⟨rfl, h, rfl, le_refl _, by omega⟩

/-- One iteration in front of the end of the content, with some of it ahead. -/
theorem forwardExactlyStep_flows {contentLength bytesSent : UInt64} {l : Link} (h : l.Flows)
    (hlt : bytesSent < contentLength) (hne : l.ahead ≠ []) :
    Returns (forwardExactlyStep contentLength bytesSent) l fun r l' => ∃ b, r = .inl b ∧ l'.Flows ∧
      b.toNat ≤ contentLength.toNat ∧ b.toNat + l'.ahead.length = bytesSent.toNat + l.ahead.length ∧
      l'.left < l.left := by
  unfold forwardExactlyStep
  rw [if_pos hlt]
  refine Returns.bind (refill_flows h hne) ?_
  rintro ok l₁ ⟨rfl, hflows, hahead, hin, hpos⟩
  rw [if_pos rfl]
  refine returns_get ?_
  set m := min (contentLength - bytesSent).toNat l₁.readBuffer.length with hm
  obtain ⟨l₂, hwrite, htgt, hfrom, hahead₂⟩ := writeToPeer_front hflows.target (n := m)
    (Nat.min_le_right _ _)
  have hrem : (contentLength - bytesSent).toNat = contentLength.toNat - bytesSent.toNat :=
    UInt64.toNat_sub_of_le _ _ (UInt64.le_of_lt hlt)
  have hlt' := UInt64.lt_iff_toNat_lt.mp hlt
  have hbound := contentLength.toNat_lt
  have hsum : (bytesSent + UInt64.ofNat m).toNat = bytesSent.toNat + m := toNat_add_ofNat (by omega)
  have hlen := congrArg List.length hahead₂
  rw [List.length_append, List.length_take, length_text, Nat.min_eq_left (Nat.min_le_right _ _),
    hahead] at hlen
  refine ⟨.inl (bytesSent + UInt64.ofNat m), l₂, bind_ok hwrite, _, rfl,
    ⟨hfrom ▸ hflows.source, htgt⟩, by omega, by omega, ?_⟩
  rw [Link.left, Link.left, hfrom]
  omega

/-- A write to a socket whose writes succeed. -/
theorem asyncWrite_returns {octets : List Octet} {s : Socket} (h : s.WritesOk) :
    Returns (asyncWrite octets) s fun r _ => r.1 = false := by
  obtain ⟨hopen, hws⟩ := h
  unfold Returns asyncWrite
  rw [if_pos hopen]
  cases hin : s.writes with
  | nil => exact ⟨_, _, rfl, rfl⟩
  | cons w ws =>
    obtain rfl := hws w (by rw [hin]; exact List.mem_cons_self)
    exact ⟨_, _, rfl, rfl⟩

/-- **`ForwardExactly` returns** once the content is ahead. -/
theorem forwardExactly_returns {contentLength : UInt64} {l : Link} {fuel : ℕ} (h : l.Ready fuel)
    (hlen : contentLength.toNat ≤ l.ahead.length) :
    Returns (forwardExactly fuel contentLength) l fun ok _ => ok = true := by
  have henough := h.enough
  refine returns_whileLoop (fun (b : UInt64) l₁ => l₁.Flows ∧ b.toNat ≤ contentLength.toNat ∧
    contentLength.toNat ≤ b.toNat + l₁.ahead.length) (fun _ l₁ => l₁.left) ?_
    ⟨h.toFlows, Nat.zero_le _, le_trans hlen (Nat.le_add_left _ _)⟩ (by omega)
  rintro b l₁ ⟨hflows, hle, hge⟩
  by_cases hlt : b < contentLength
  · have hlt' := UInt64.lt_iff_toNat_lt.mp hlt
    have hne : l₁.ahead ≠ [] := fun hnil => by
      rw [hnil, List.length_nil] at hge
      omega
    refine (forwardExactlyStep_flows hflows hlt hne).mono ?_
    rintro r l₂ ⟨b', rfl, hflows₂, hle₂, hsum, hprog⟩
    exact ⟨⟨hflows₂, hle₂, by omega⟩, hprog⟩
  · refine ⟨.inr true, l₁, ?_, rfl⟩
    rw [forwardExactlyStep, if_neg hlt]
    rfl

/-- **`ForwardChunked` returns** once a body is ahead. -/
theorem forwardChunked_flows {ts : List Bytes} {body rest : Bytes} {l : Link} {fuel : ℕ}
    (h : l.Ready fuel) (hbody : Framed maxChunkSize ts body) (hahead : l.ahead = body ++ rest) :
    Returns (forwardChunked fuel) l fun ok _ => ok = true := by
  have hstart : Complete rest ⟨.readChunkSizeLine, 0, 0, 0⟩ l :=
    ⟨h.source, h.target, trivial, body, ⟨ts, hbody⟩, hahead⟩
  have hrun : Returns (forwardChunked fuel) l fun ok l' => ok = true ∧ l'.ahead = rest :=
    returns_whileLoop (Complete rest) chunkedMeasure
      (fun _ _ hc => forwardChunkedStep_complete hc) hstart h.enough
  exact hrun.mono fun _ _ h => h.1

/-! ### `async_read_header` -/

/-- A read in front of the end of the stream brings data. -/
theorem fetchMore_flows {l : Link} (h : l.fromPeer.Delivers) (hne : l.fromPeer.stream ≠ []) :
    Returns (fetchMore : EStateM Stop Link (Unit ⊕ Option (α × List Octet))) l fun r l' =>
      r = .inl () ∧ l'.fromPeer.Delivers ∧ l'.ahead = l.ahead ∧
      l'.fromPeer.incoming.length < l.fromPeer.incoming.length := by
  obtain ⟨hopen, hdata⟩ := h
  cases hin : l.fromPeer.incoming with
  | nil => exact absurd (by rw [Socket.stream, hin]; rfl) hne
  | cons r rest =>
    obtain ⟨hec, hb⟩ := hdata r (by rw [hin]; exact List.mem_cons_self)
    have hother : r.ec ≠ some .other := by rw [hec]; simp
    have hread : fetch l = .ok r (l.committed rest r.bytes) := by
      have hzoom : zoom Link.fromPeer (fun s l => { l with fromPeer := s }) asyncReadSome l
          = .ok r (l.taken rest) := by
        refine zoom_ok ?_
        rw [asyncReadSome, if_pos hopen, hin]
      rw [fetch, bind_ok hzoom, ReadOutcome.delivered, if_neg hother]
      rfl
    refine ⟨.inl (), l.committed rest r.bytes, ?_, rfl, ⟨hopen, fun r' hr' => ?_⟩, ?_, ?_⟩
    · rw [fetchMore, bind_ok hread, hec]
      rfl
    · exact hdata r' (by rw [hin]; exact List.mem_cons_of_mem _ hr')
    · exact (moved_committed hin hother).ahead.symm
    · exact Nat.lt_succ_self _

/-- **`async_read_header` returns** once a head is ahead. -/
theorem asyncReadHeader_returns {parse : Bytes → ParseResult α} {head rest : Bytes} {expected : α}
    {l : Link} {fuel : ℕ} (h : l.fromPeer.Delivers) (hd : Delimits parse head expected)
    (hne : head ≠ []) (hahead : l.ahead = head ++ rest)
    (hfuel : l.fromPeer.incoming.length < fuel) :
    Returns (asyncReadHeader parse fuel) l fun q _ => q.isSome = true := by
  refine returns_whileLoop (fun _ l₁ => l₁.fromPeer.Delivers ∧ l₁.ahead = head ++ rest)
    (fun _ l₁ => l₁.fromPeer.incoming.length) ?_ ⟨h, hahead⟩ hfuel
  rintro - l₁ ⟨hsrc, hahead₁⟩
  have hmore : l₁.fromPeer.stream ≠ [] →
      Returns (fetchMore : EStateM Stop Link (Unit ⊕ Option (α × List Octet))) l₁ fun r t =>
        Sum.elim (fun _ => (t.fromPeer.Delivers ∧ t.ahead = head ++ rest) ∧
          t.fromPeer.incoming.length < l₁.fromPeer.incoming.length)
          (fun q => q.isSome = true) r := by
    intro hs
    refine (fetchMore_flows hsrc hs).mono ?_
    rintro r t ⟨rfl, hd', ha, hlt⟩
    exact ⟨⟨hd', ha.trans hahead₁⟩, hlt⟩
  refine returns_get ?_
  by_cases hbuf : l₁.readBuffer = []
  · rw [if_pos hbuf]
    refine hmore (ahead_ne_nil hbuf ?_)
    rw [hahead₁]
    exact fun hnil => hne (List.append_eq_nil_iff.mp hnil).1
  rw [if_neg hbuf]
  have htext : text l₁.readBuffer ≠ [] := fun hnil => hbuf (List.map_eq_nil_iff.mp hnil)
  rcases List.prefix_or_prefix_of_prefix (List.prefix_append head rest)
    ⟨l₁.fromPeer.stream, hahead₁⟩ with ⟨u, hu⟩ | hp
  · -- all of the head is buffered
    rw [← hu, hd.complete]
    exact returns_modify (returns_pure rfl)
  · by_cases heq : text l₁.readBuffer = head
    · rw [heq, ← List.append_nil head, hd.complete]
      exact returns_modify (returns_pure rfl)
    · rw [hd.incomplete _ hp htext heq]
      refine hmore fun hs => ?_
      rw [Link.ahead, hs, List.append_nil] at hahead₁
      exact heq (hp.eq_of_length_le (by rw [hahead₁, List.length_append]; omega))

/-- A read behind the end of the stream. -/
theorem fetchMore_end {l : Link} (h : l.fromPeer.Delivers) (hs : l.fromPeer.stream = []) :
    (fetchMore : EStateM Stop Link (Unit ⊕ Option (α × List Octet))) l
      = if l.fromPeer.atEof then .ok (.inr none) l else .error .blocked l := by
  have hin := incoming_eq_nil h hs
  cases hat : l.fromPeer.atEof with
  | false =>
    have hread : zoom Link.fromPeer (fun s l => { l with fromPeer := s }) asyncReadSome l
        = .error .blocked l := by
      refine zoom_error ?_
      rw [asyncReadSome, if_pos h.1, hin, hat]
      rfl
    have hfetch : fetch l = .error .blocked l := bind_error hread
    rw [fetchMore, bind_error hfetch]
    rfl
  | true =>
    have hread : zoom Link.fromPeer (fun s l => { l with fromPeer := s }) asyncReadSome l
        = .ok ⟨some .eof, []⟩ l := by
      refine zoom_ok ?_
      rw [asyncReadSome, if_pos h.1, hin, hat]
      rfl
    have hfetch : fetch l = .ok ⟨some .eof, []⟩ l := by
      rw [fetch, bind_ok hread]
      show EStateM.Result.ok _ { l with readBuffer := l.readBuffer ++ [] } = _
      rw [List.append_nil]
    rw [fetchMore, bind_ok hfetch]
    rfl

/-- At the end of the stream there is no head. -/
theorem asyncReadHeader_eof {parse : Bytes → ParseResult α} {l : Link} {fuel : ℕ}
    (hsrc : l.fromPeer.DeliversAll) (hahead : l.ahead = []) (hfuel : 0 < fuel) :
    asyncReadHeader parse fuel l = .ok none l := by
  obtain ⟨n, rfl⟩ : ∃ n, fuel = n + 1 := ⟨fuel - 1, by omega⟩
  obtain ⟨hbuf, hs⟩ := List.append_eq_nil_iff.mp hahead
  have hbuf : l.readBuffer = [] := List.map_eq_nil_iff.mp hbuf
  have hend := fetchMore_end (α := α) hsrc.delivers hs
  rw [hsrc.atEof, if_pos rfl] at hend
  refine whileLoop_leave ?_
  rw [asyncReadHeaderStep, bind_ok (get_run l), if_pos hbuf]
  exact hend

end ProxyPP.Http
