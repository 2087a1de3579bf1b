import ProxyPP.Http.Chunked

/-!
# ProxyPP.Http.ChunkedFraming — what `ForwardChunked` guarantees

* `forwardChunked_exact`: a well-framed body is forwarded byte for byte, however the stream is cut,
  and what follows it stays in the buffer or unread.
* `forwardChunked_true_iff_terminators`: the bytes of a body reported as completed are well framed
  exactly when the two bytes behind the data of every chunk are CRLF.  `ForwardChunked` counts these
  two bytes but does not look at them (`forwardChunked_accepts_bad_terminator`).
-/

namespace ProxyPP.Http

open ProxyPP ProxyPP.Lib ProxyPP.Http.Details

/-! ### Exactness -/

/-- A run that returned `true` sent a framed body off the front of what was ahead. -/
theorem forwardChunked_sent {fuel : ℕ} {l l' : Link} (h : forwardChunked fuel l = .ok true l') :
    ∃ tx ts, text l'.targetPeer.sentOctets = text l.targetPeer.sentOctets ++ text tx ∧
      Framed maxChunkSize ts (text tx) ∧ l.ahead = text tx ++ l'.ahead := by
  obtain ⟨tx, rx, hm, ts, hts⟩ := (forwardChunked_ends fuel l).ok h
  exact ⟨tx, ts, by rw [hm.sentOctets, text_append], hts, hm.ahead⟩

/-- **Exact forwarding, whatever the segmentation.**  Let the read buffer and the non-empty reads to
come spell `B ++ R`, `B` a well-framed body with chunk sizes at most `2^64 - 3`.  With all writes
succeeding, `ForwardChunked` returns `true`, the bytes written are `B`, and the read buffer followed
by the unread input is `R`. -/
theorem forwardChunked_exact {B R : Bytes} (hB : ChunkedBody (2 ^ 64 - 3) B) (l : Link)
    (segments : List Bytes) (hne : ∀ s ∈ segments, s ≠ []) (hopen : l.fromPeer.isOpen = true)
    (hin : l.fromPeer.incoming = segments.map (ReadOutcome.mk none))
    (hsplit : text l.readBuffer ++ segments.flatten = B ++ R) (hw : l.targetPeer.WritesOk) :
    ∃ N, ∀ fuel, N < fuel → ∃ l', forwardChunked fuel l = .ok true l' ∧
      text l'.targetPeer.sentOctets = text l.targetPeer.sentOctets ++ B ∧
      text l'.readBuffer ++ l'.fromPeer.stream = R := by
  obtain ⟨ts, hts, -⟩ := hB.framed
  have hsrc : l.fromPeer.Delivers := by
    refine ⟨hopen, fun r hr => ?_⟩
    rw [hin] at hr
    obtain ⟨s, hs, rfl⟩ := List.mem_map.mp hr
    exact ⟨rfl, hne s hs⟩
  have hahead : l.ahead = B ++ R := by
    rw [← hsplit, Link.ahead, Socket.stream, hin, List.flatMap_map]
    have hd : (fun s : Bytes => ReadOutcome.delivered ⟨none, s⟩) = id := rfl
    rw [hd, List.flatMap_id]
  obtain ⟨N, hN⟩ := forwardChunked_total hts hsrc hw hahead
  refine ⟨N, fun fuel hfuel => ?_⟩
  obtain ⟨l', hr, hl'⟩ := hN fuel hfuel
  obtain ⟨tx, ts', hsent, -, hcons⟩ := forwardChunked_sent hr
  have htx : text tx = B := by
    rw [hahead, hl'] at hcons
    exact (List.append_cancel_right hcons).symm
  exact ⟨l', hr, by rw [hsent, htx], hl'⟩

/-- The socket of an idle peer that will deliver `incoming`. -/
def scriptedSocket (id : ℕ) (incoming : List ReadOutcome) : Socket :=
  ⟨true, ⟨id, ⟨[], 80⟩⟩, incoming, true, [], []⟩

/-- A chunk with its terminator cut between CR and LF, and one byte behind the body. -/
theorem forwardChunked_exact_cut : ∃ N, ∀ fuel, N < fuel → ∃ l',
    forwardChunked fuel ⟨received ⟨0, ⟨[], 80⟩⟩ (ascii "1\r\na\r"),
      scriptedSocket 0 ([ascii "\n0\r", ascii "\n\r\nZ"].map (ReadOutcome.mk none)),
      scriptedSocket 1 []⟩ = .ok true l' ∧
    text l'.targetPeer.sentOctets = [] ++ ascii "1\r\na\r\n0\r\n\r\n" ∧
    text l'.readBuffer ++ l'.fromPeer.stream = ascii "Z" :=
  have hlast : ChunkedBody maxChunkSize (ascii "0\r\n\r\n") :=
    @ChunkedBody.last _ (ascii "0") _ (by decide) Trailers.last
  have hbody : ChunkedBody maxChunkSize (ascii "1\r\na\r\n0\r\n\r\n") :=
    @ChunkedBody.chunk _ (ascii "1") (ascii "a") _ 1 (by decide) (by decide) (by decide) rfl hlast
  forwardChunked_exact (B := ascii "1\r\na\r\n0\r\n\r\n") (R := ascii "Z") hbody
    ⟨received ⟨0, ⟨[], 80⟩⟩ (ascii "1\r\na\r"),
      scriptedSocket 0 ([ascii "\n0\r", ascii "\n\r\nZ"].map (ReadOutcome.mk none)),
      scriptedSocket 1 []⟩
    [ascii "\n0\r", ascii "\n\r\nZ"] (by decide) rfl rfl (by decide) ⟨rfl, by decide⟩

/-! ### Chunk terminators -/

/-- On this link a body reported as completed is well framed. -/
def CompletedIsWellFramed (l : Link) : Prop :=
  ∀ fuel l' W, forwardChunked fuel l = .ok true l' →
    text l'.targetPeer.sentOctets = text l.targetPeer.sentOctets ++ W → ChunkedBody (2 ^ 64 - 1) W

/-- In the body the stream starts with, if any, the data of every chunk is followed by CRLF. -/
def TerminatorsAreCrlf (stream : Bytes) : Prop :=
  ∀ ts body rest, stream = body ++ rest → Framed maxChunkSize ts body → ∀ t ∈ ts, t = crlf

/-- The bytes of a framed body in which one chunk is not terminated by CRLF are not well framed. -/
theorem not_chunkedBody_of_framed {limit limit' : ℕ} {ts : List Bytes} {body : Bytes}
    (h : Framed limit ts body) (hbad : ¬ ∀ t ∈ ts, t = crlf) : ¬ ChunkedBody limit' body := by
  rw [chunkedBody_iff]
  rintro ⟨ts', hts', hcrlf⟩
  have hsame : body ++ [] = body ++ [] := rfl
  obtain ⟨-, rfl⟩ := h.unique hts' hsame
  exact hbad hcrlf

/-- **Well-framed bodies only, exactly when the terminators are CRLF.**  For every buffer content,
segmentation and outcome of the reads and writes, a stream whose chunk data are all followed by CRLF
is reported as completed only with a well-framed body sent; and where all reads and writes succeed,
no other stream has that property. -/
theorem forwardChunked_true_iff_terminators (l : Link) :
    (TerminatorsAreCrlf l.ahead → CompletedIsWellFramed l) ∧
    (l.fromPeer.Delivers → l.targetPeer.WritesOk →
      (CompletedIsWellFramed l ↔ TerminatorsAreCrlf l.ahead)) := by
  have hsound : TerminatorsAreCrlf l.ahead → CompletedIsWellFramed l := by
    intro hcrlf fuel l' W hr hW
    obtain ⟨tx, ts, hsent, hts, hcons⟩ := forwardChunked_sent hr
    obtain rfl : W = text tx := List.append_cancel_left (hW.symm.trans hsent)
    exact chunkedBody_iff.mpr ⟨ts, hts.mono (by decide), hcrlf ts _ _ hcons hts⟩
  refine ⟨hsound, fun hsrc hw => ⟨fun hwf ts body rest hahead hts => ?_, hsound⟩⟩
  obtain ⟨N, hN⟩ := forwardChunked_total hts hsrc hw hahead
  obtain ⟨l', hr, hl'⟩ := hN (N + 1) (Nat.lt_succ_self N)
  obtain ⟨tx, ts', hsent, -, hcons⟩ := forwardChunked_sent hr
  have htx : text tx = body := by
    rw [hahead, hl'] at hcons
    exact (List.append_cancel_right hcons).symm
  by_contra hbad
  exact not_chunkedBody_of_framed hts hbad (htx ▸ hwf (N + 1) l' (text tx) hr hsent)

/-- A body whose only chunk is terminated by CRLF is reported as completed only as it is. -/
theorem forwardChunked_true_iff_terminators_crlf :
    let l : Link :=
      ⟨[], scriptedSocket 0 [⟨none, ascii "1\r\na\r\n0\r\n\r\n"⟩], scriptedSocket 1 []⟩
    TerminatorsAreCrlf l.ahead ∧ CompletedIsWellFramed l := by
  intro l
  have hframed : Framed maxChunkSize [crlf] (ascii "1\r\na\r\n0\r\n\r\n") :=
    @Framed.chunk _ (ascii "1") (ascii "a") crlf _ 1 _ (by decide) (by decide) (by decide) rfl rfl
      (@Framed.last _ (ascii "0") _ (by decide) Trailers.last)
  have hcrlf : TerminatorsAreCrlf l.ahead := by
    intro ts body rest hahead hts
    have hsame : ascii "1\r\na\r\n0\r\n\r\n" ++ [] = body ++ rest := hahead
    obtain ⟨-, rfl⟩ := hframed.unique hts hsame
    simp
  exact ⟨hcrlf,
    ((forwardChunked_true_iff_terminators l).2 ⟨rfl, by decide⟩ ⟨rfl, by decide⟩).mpr hcrlf⟩

/-- The two bytes behind the data of the only chunk are `bc`. -/
def badTerminatorLink : Link :=
  ⟨received ⟨0, ⟨[], 80⟩⟩ (ascii "1\r\nabc0\r\n\r\n"), scriptedSocket 0 [], scriptedSocket 1 []⟩

/-- `ForwardChunked` reports a body as completed whose chunk data is not followed by CRLF. -/
theorem forwardChunked_accepts_bad_terminator : ¬ ∀ l, CompletedIsWellFramed l := by
  intro h
  have hrun : (returned (forwardChunked 9 badTerminatorLink)).map
      (fun p => (p.1, text p.2.targetPeer.sentOctets))
        = some (true, ascii "1\r\nabc0\r\n\r\n") := by
    decide +kernel
  obtain ⟨⟨ok, l'⟩, hr, hp⟩ := Option.map_eq_some_iff.mp hrun
  obtain ⟨rfl, hsent⟩ := Prod.mk.inj hp
  have hlast : Framed maxChunkSize [] (ascii "0\r\n\r\n") :=
    @Framed.last _ (ascii "0") _ (by decide) Trailers.last
  have hframed : Framed maxChunkSize [ascii "bc"] (ascii "1\r\nabc0\r\n\r\n") :=
    @Framed.chunk _ (ascii "1") (ascii "a") (ascii "bc") _ 1 _ (by decide) (by decide) (by decide)
      rfl rfl hlast
  exact not_chunkedBody_of_framed hframed (by decide)
    (h badTerminatorLink 9 l' _ (returned_eq_some.mp hr) hsent)

end ProxyPP.Http
