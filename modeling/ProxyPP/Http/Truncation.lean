import ProxyPP.Http.ChunkedFraming

/-!
# ProxyPP.Http.Truncation — `ForwardExactly` on a stream that ends

A source that delivers its stream and then reports EOF for good.  `ReadSomeFromPeer` has a result at
EOF, with no bytes; `ForwardExactly` takes it for a successful read, writes nothing and reads again.
So it meets its specification exactly if the stream is long enough
(`forwardExactly_meets_iff`); on a shorter one it never returns (`forwardExactly_spins`).
-/

namespace ProxyPP.Http

open ProxyPP ProxyPP.Lib

/-! ## A source at its end -/

/-- The source delivers its stream in non-empty reads, and then EOF without bytes on every read. -/
structure Socket.DeliversAll (s : Socket) : Prop where
  delivers : s.Delivers
  atEof : s.atEof = true

/-- Reads bring data or, at the end, EOF; writes succeed. -/
structure Link.Finite (l : Link) : Prop where
  source : l.fromPeer.DeliversAll
  target : l.targetPeer.WritesOk

theorem incoming_eq_nil {s : Socket} (h : s.Delivers) (hs : s.stream = []) : s.incoming = [] := by
  cases hin : s.incoming with
  | nil => rfl
  | cons r rest =>
    obtain ⟨hec, hb⟩ := h.2 r (by rw [hin]; exact List.mem_cons_self)
    rw [Socket.stream, hin, List.flatMap_cons, ReadOutcome.delivered, if_neg (by simp [hec])] at hs
    exact absurd (List.append_eq_nil_iff.mp hs).1 hb

/-- At the end of the stream a read has a result, and changes nothing. -/
theorem readSomeFromPeer_eof {l : Link} (hsrc : l.fromPeer.DeliversAll)
    (hs : l.fromPeer.stream = []) : readSomeFromPeer l = .ok (some ⟨0, true⟩) l := by
  rw [readSomeFromPeer_nil fun _ => incoming_eq_nil hsrc.delivers hs, if_pos hsrc.delivers.1,
    if_pos hsrc.atEof]

/-- In front of the end a read brings data. -/
theorem readSomeFromPeer_more {l : Link} (h : l.Finite) (hs : l.fromPeer.stream ≠ []) :
    ∃ n l', 0 < n ∧ readSomeFromPeer l = .ok (some ⟨n, false⟩) l' ∧ l'.ahead = l.ahead ∧
      l'.Finite ∧ l'.readBuffer ≠ [] ∧
      l'.fromPeer.incoming.length < l.fromPeer.incoming.length := by
  obtain ⟨n, l', hn, hr, hahead, hsrc, htgt, hlt⟩ := readSomeFromPeer_data h.source.delivers hs
  obtain ⟨rx, hm, hres⟩ := (readSomeFromPeer_ends l).ok hr
  have heof : l'.fromPeer.atEof = l.fromPeer.atEof := by rw [hm.fromPeer]
  have hbuf : l'.readBuffer = l.readBuffer ++ rx := hm.buffer
  refine ⟨n, l', hn, hr, hahead, ⟨⟨hsrc, heof.trans h.source.atEof⟩, htgt ▸ h.target⟩, ?_, hlt⟩
  intro hnil
  rw [hbuf] at hnil
  have hpos := (hres _ rfl).2 rfl
  rw [(List.append_eq_nil_iff.mp hnil).2] at hpos
  exact absurd hpos (Nat.lt_irrefl 0)

/-- A write of the front of the buffer. -/
theorem writeToPeer_finite {l : Link} (h : l.Finite) {n : ℕ} (hn : n ≤ l.readBuffer.length) :
    ∃ l', writeToPeer n l = .ok (some n) l' ∧ l'.Finite ∧ l'.fromPeer = l.fromPeer ∧
      l.ahead = (text l.readBuffer).take n ++ l'.ahead := by
  obtain ⟨l', hr, htgt, hfrom, hahead⟩ := writeToPeer_front h.target hn
  exact ⟨l', hr, ⟨hfrom ▸ h.source, htgt⟩, hfrom, hahead⟩

/-! ## `ForwardExactly` -/

/-- What is left to read and to write. -/
def Link.left (l : Link) : ℕ := l.fromPeer.incoming.length + l.ahead.length

theorem refill_finite {l : Link} (h : l.Finite) : ∃ l', refill l = .ok true l' ∧ l'.Finite ∧
    l'.ahead = l.ahead ∧ l'.fromPeer.incoming.length ≤ l.fromPeer.incoming.length ∧
    (l.ahead ≠ [] → l'.readBuffer ≠ []) := by
  rw [refill, bind_ok (get_run l)]
  by_cases hbuf : l.readBuffer.length = 0
  · rw [if_pos hbuf]
    by_cases hs : l.fromPeer.stream = []
    · refine ⟨l, bind_ok (readSomeFromPeer_eof h.source hs), h, rfl, le_refl _, fun hne => ?_⟩
      refine absurd ?_ hne
      rw [Link.ahead, hs, List.length_eq_zero_iff.mp hbuf]
      rfl
    · obtain ⟨n, l', -, hr, hahead, hfin, hne, hlt⟩ := readSomeFromPeer_more h hs
      exact ⟨l', bind_ok hr, hfin, hahead, le_of_lt hlt, fun _ => hne⟩
  · rw [if_neg hbuf]
    exact ⟨l, rfl, h, rfl, le_refl _, fun _ hnil => hbuf (by rw [hnil]; rfl)⟩

/-- One iteration in front of the end of the content: it sends the front of what is ahead, and makes
progress unless nothing is ahead. -/
theorem forwardExactlyStep_finite {contentLength bytesSent : UInt64} {l : Link} (h : l.Finite)
    (hlt : bytesSent < contentLength) : ∃ b l',
      forwardExactlyStep contentLength bytesSent l = .ok (.inl b) l' ∧ l'.Finite ∧
      b.toNat ≤ contentLength.toNat ∧ b.toNat + l'.ahead.length = bytesSent.toNat + l.ahead.length ∧
      (l.ahead ≠ [] → l'.left < l.left) := by
  obtain ⟨l₁, hrefill, hfin₁, hahead₁, hin₁, hne₁⟩ := refill_finite h
  set m := min (contentLength - bytesSent).toNat l₁.readBuffer.length with hm
  obtain ⟨l₂, hwrite, hfin₂, hfrom₂, hahead₂⟩ := writeToPeer_finite hfin₁ (n := m)
    (Nat.min_le_right _ _)
  have hrem : (contentLength - bytesSent).toNat = contentLength.toNat - bytesSent.toNat :=
    UInt64.toNat_sub_of_le _ _ (UInt64.le_of_lt hlt)
  have hlt' := UInt64.lt_iff_toNat_lt.mp hlt
  have hbound := contentLength.toNat_lt
  have hsum : (bytesSent + UInt64.ofNat m).toNat = bytesSent.toNat + m := toNat_add_ofNat (by omega)
  have hlen := congrArg List.length hahead₂
  rw [List.length_append, List.length_take, length_text, Nat.min_eq_left (Nat.min_le_right _ _),
    hahead₁] at hlen
  refine ⟨bytesSent + UInt64.ofNat m, l₂, ?_, hfin₂, ?_, ?_, fun hne => ?_⟩
  · rw [forwardExactlyStep, if_pos hlt, bind_ok hrefill, if_pos rfl, bind_ok (get_run l₁),
      bind_ok hwrite]
    rfl
  · omega
  · omega
  · have hpos : 0 < l₁.readBuffer.length := List.length_pos_iff.mpr (hne₁ hne)
    rw [Link.left, Link.left, hfrom₂]
    omega

theorem forwardExactly_enough {contentLength : UInt64} {l : Link} (h : l.Finite)
    (hlen : contentLength.toNat ≤ l.ahead.length) :
    ∃ N, ∀ fuel, N < fuel → ∃ l', forwardExactly fuel contentLength l = .ok true l' := by
  refine ⟨l.left, fun fuel hfuel => ?_⟩
  have hrun : ∃ ok l', forwardExactly fuel contentLength l = .ok ok l' ∧ ok = true := by
    refine whileLoop_total (fun (b : UInt64) l₁ => l₁.Finite ∧ b.toNat ≤ contentLength.toNat ∧
      contentLength.toNat ≤ b.toNat + l₁.ahead.length) (fun _ l₁ => l₁.left) ?_ fuel 0 l
      ⟨h, Nat.zero_le _, le_trans hlen (Nat.le_add_left _ _)⟩ hfuel
    rintro b l₁ ⟨hfin, hle, hge⟩
    by_cases hlt : b < contentLength
    · obtain ⟨b', l₂, hr, hfin₂, hle₂, hsum, hprog⟩ := forwardExactlyStep_finite hfin hlt
      have hlt' := UInt64.lt_iff_toNat_lt.mp hlt
      refine ⟨.inl b', l₂, hr, ⟨hfin₂, hle₂, by omega⟩, hprog fun hnil => ?_⟩
      rw [hnil, List.length_nil] at hge
      omega
    · exact ⟨.inr true, l₁, by rw [forwardExactlyStep, if_neg hlt]; rfl, rfl⟩
  obtain ⟨ok, l', hr, rfl⟩ := hrun
  exact ⟨l', hr⟩

/-- **A short stream.**  `ForwardExactly` never returns: at EOF it reads again and again. -/
theorem forwardExactly_spins {contentLength : UInt64} {l : Link} (h : l.Finite)
    (hlen : l.ahead.length < contentLength.toNat) (fuel : ℕ) :
    ∃ l', forwardExactly fuel contentLength l = .error .outOfFuel l' := by
  refine whileLoop_diverges (fun (b : UInt64) l₁ => l₁.Finite ∧
    b.toNat + l₁.ahead.length < contentLength.toNat) ?_ fuel 0 l ⟨h, by simpa using hlen⟩
  rintro b l₁ ⟨hfin, hshort⟩
  have hlt : b < contentLength := UInt64.lt_iff_toNat_lt.mpr (by omega)
  obtain ⟨b', l₂, hr, hfin₂, -, hsum, -⟩ := forwardExactlyStep_finite hfin hlt
  exact ⟨b', l₂, hr, hfin₂, by omega⟩

/-- The specification of `ForwardExactly` on a stream that ends.  It returns; with enough ahead, it
returns `true`, has sent the first `contentLength` bytes and left the rest in the buffer and unread;
with less it returns `false` and has sent all.  `bytes_sent` stays within `content_length`. -/
structure MeetsExactly (contentLength : UInt64) (l : Link) : Prop where
  returns : ∃ N, ∀ fuel, N < fuel → ∃ ok l', forwardExactly fuel contentLength l = .ok ok l' ∧
    if contentLength.toNat ≤ l.ahead.length then
      ok = true ∧
      text l'.targetPeer.sentOctets
        = text l.targetPeer.sentOctets ++ l.ahead.take contentLength.toNat ∧
      text l'.readBuffer ++ l'.fromPeer.stream = l.ahead.drop contentLength.toNat
    else ok = false ∧
      text l'.targetPeer.sentOctets = text l.targetPeer.sentOctets ++ l.ahead
  bounded : ∀ bytesSent l', Reaches (forwardExactlyStep contentLength) 0 l bytesSent l' →
    bytesSent.toNat ≤ contentLength.toNat

/-- **`ForwardExactly` meets its specification exactly if the stream is long enough.** -/
theorem forwardExactly_meets_iff (contentLength : UInt64) (l : Link) (h : l.Finite) :
    MeetsExactly contentLength l ↔ contentLength.toNat ≤ l.ahead.length := by
  constructor
  · rintro ⟨⟨N, hN⟩, -⟩
    by_contra hlen
    obtain ⟨ok, l', hr, -⟩ := hN (N + 1) (Nat.lt_succ_self N)
    obtain ⟨l'', hspin⟩ := forwardExactly_spins h (Nat.lt_of_not_le hlen) (N + 1)
    rw [hr] at hspin
    cases hspin
  · intro hlen
    refine ⟨?_, fun b l' hb => ?_⟩
    · obtain ⟨N, hN⟩ := forwardExactly_enough h hlen
      refine ⟨N, fun fuel hfuel => ?_⟩
      obtain ⟨l', hr⟩ := hN fuel hfuel
      obtain ⟨tx, rx, hm, htx⟩ := (forwardExactly_ends fuel contentLength l).ok hr
      have hcons : l.ahead = text tx ++ l'.ahead := hm.ahead
      have hlen' : (text tx).length = contentLength.toNat := by rw [length_text, htx]
      refine ⟨true, l', hr, ?_⟩
      rw [if_pos hlen]
      refine ⟨rfl, ?_, ?_⟩
      · rw [hm.sentOctets, text_append, hcons, ← hlen', List.take_left]
      · rw [hcons, ← hlen', List.drop_left]
        rfl
    · have hcounted : Counted contentLength l b l' := by
        refine hb.invariant (Counted contentLength l) ?_ (counted_start contentLength l)
        intro b s b' t hI hr
        exact (forwardExactlyStep_ends hI).ok hr
      obtain ⟨-, -, -, -, hle⟩ := hcounted
      exact hle

/-- A link with idle peers: `buffered` in the read buffer, and `segments` to be read before EOF. -/
def linkOf (buffered : Bytes) (segments : List Bytes) : Link :=
  ⟨received ⟨0, ⟨[], 80⟩⟩ buffered, scriptedSocket 0 (segments.map (ReadOutcome.mk none)),
    scriptedSocket 1 []⟩

theorem linkOf_finite {buffered : Bytes} {segments : List Bytes} (h : ∀ s ∈ segments, s ≠ []) :
    (linkOf buffered segments).Finite := by
  refine ⟨⟨⟨rfl, fun r hr => ?_⟩, rfl⟩, rfl, by simp [linkOf, scriptedSocket]⟩
  obtain ⟨s, hs, rfl⟩ := List.mem_map.mp hr
  exact ⟨rfl, h s hs⟩

/-- Two bytes of content, one buffered and two in the next read. -/
theorem forwardExactly_meets_two : MeetsExactly 2 (linkOf (ascii "a") [ascii "bc"]) :=
  (forwardExactly_meets_iff 2 _ (linkOf_finite (by decide))).mpr (by decide)

/-- One byte of content, of which the peer sends nothing. -/
theorem forwardExactly_misses_short :
    ¬ ∀ (contentLength : UInt64) (l : Link), l.Finite → MeetsExactly contentLength l := by
  intro h
  have hfin : (linkOf [] []).Finite := linkOf_finite (by simp)
  obtain ⟨N, hN⟩ := (h 1 (linkOf [] []) hfin).returns
  obtain ⟨ok, l', hr, -⟩ := hN (N + 1) (Nat.lt_succ_self N)
  have hshort : (linkOf [] []).ahead.length < (1 : UInt64).toNat := by decide
  obtain ⟨l'', hspin⟩ := forwardExactly_spins hfin hshort (N + 1)
  rw [hr] at hspin
  cases hspin

end ProxyPP.Http
