import ProxyPP.Http.BodyInfo
import ProxyPP.Http.ChunkedFraming

/-!
# ProxyPP.Http.Bodies — one body off the front of a stream

A stream that starts with a body of the announced framing: `ForwardExactly` and `ForwardChunked`
never send more than that body, and on `true` they have sent it and what follows it is still ahead.
-/

namespace ProxyPP.Http

open ProxyPP ProxyPP.Lib

/-- The bytes are a body of a request with this framing. -/
def RequestBody (info : RequestBodyInfo) (body : Bytes) : Prop :=
  match info.framing with
  | .none => body = []
  | .contentLength => body.length = info.contentLength.toNat
  | .chunked => ChunkedBody (2 ^ 64) body

/-- The bytes are a body of a response with this framing.  A body that the end of the connection
delimits is any bytes; a tunnel has none. -/
def ResponseBody (info : ResponseBodyInfo) (body : Bytes) : Prop :=
  match info.framing with
  | .none => body = []
  | .contentLength => body.length = info.contentLength.toNat
  | .chunked => ChunkedBody (2 ^ 64) body
  | .closeDelimited => True
  | .tunnel => False

/-- A part of `body` was sent, all of it if `ok`, and then `rest` is ahead. -/
def BodySent (l : Link) (body rest : Bytes) (ok : Bool) (l' : Link) : Prop :=
  ∃ w, text l'.targetPeer.sentOctets = text l.targetPeer.sentOctets ++ w ∧ w <+: body ∧
    (ok = true → w = body ∧ l'.ahead = rest)

section Sent

variable {l : Link} {body rest : Bytes} {P : List Octet → Link → Prop} {F : List Octet → Prop}

/-- From what a forwarding function guarantees to what it sent of the body ahead. -/
theorem bodySent_of_forwarded {m : EStateM Stop Link Bool}
    (h : Ends m l (Forwarded l P F) (Suspended l F)) (hahead : l.ahead = body ++ rest)
    (hP : ∀ tx l', P tx l' → text tx <+: body ++ rest → text tx = body)
    (hF : ∀ tx, F tx → text tx <+: body ++ rest → text tx <+: body) :
    Ends m l (BodySent l body rest) (fun _ l' => BodySent l body rest false l') := by
  have hcut : ∀ l' tx rx, Cut l l' tx rx → F tx → BodySent l body rest false l' := by
    intro l' tx rx hc hFtx
    have hpre := hc.ahead
    rw [hahead] at hpre
    exact ⟨text tx, by rw [hc.sentOctets, text_append], hF tx hFtx hpre, by simp⟩
  refine h.mono ?_ ?_
  · rintro (_ | _) l' ⟨tx, rx, hl'⟩
    · exact hcut l' tx rx hl'.1 hl'.2
    · obtain ⟨hm, hPtx⟩ := hl'
      have hcons := hm.ahead
      rw [hahead] at hcons
      have htx : text tx = body := hP tx l' hPtx ⟨l'.ahead, hcons.symm⟩
      refine ⟨body, by rw [hm.sentOctets, text_append, htx], List.prefix_refl _, fun _ => ⟨rfl, ?_⟩⟩
      rw [htx] at hcons
      exact (List.append_cancel_left hcons).symm
  · rintro e l' ⟨-, tx, rx, hm, hFtx⟩
    exact hcut l' tx rx hm.cut hFtx

/-- **`ForwardExactly`** on a stream that starts with the content. -/
theorem forwardExactly_body (fuel : ℕ) {contentLength : UInt64}
    (hbody : body.length = contentLength.toNat) (hahead : l.ahead = body ++ rest) :
    Ends (forwardExactly fuel contentLength) l (BodySent l body rest)
      (fun _ l' => BodySent l body rest false l') := by
  refine bodySent_of_forwarded (forwardExactly_ends fuel contentLength l) hahead ?_ ?_
  · intro tx _ hlen hpre
    have hlen' : (text tx).length = body.length := by rw [length_text, hlen, hbody]
    have hle : text tx <+: body :=
      List.prefix_of_prefix_length_le hpre (List.prefix_append body rest) (by omega)
    exact hle.eq_of_length hlen'
  · intro tx hlen hpre
    refine List.prefix_of_prefix_length_le hpre (List.prefix_append body rest) ?_
    rw [length_text]
    omega

/-- **`ForwardChunked`** on a stream that starts with a well-framed body. -/
theorem forwardChunked_body (fuel : ℕ) (hbody : ChunkedBody (2 ^ 64) body)
    (hahead : l.ahead = body ++ rest) : Ends (forwardChunked fuel) l (BodySent l body rest)
      (fun _ l' => BodySent l body rest false l') := by
  obtain ⟨ts, hts, -⟩ := hbody.framed
  refine bodySent_of_forwarded (forwardChunked_ends fuel l) hahead ?_ ?_
  · rintro tx _ ⟨ts', hts'⟩ ⟨r, hr⟩
    exact (hts'.unique hts hr).1
  · rintro tx ⟨ts', p, hts'⟩ hpre
    rcases List.prefix_or_prefix_of_prefix hpre (List.prefix_append body rest) with h | ⟨u, hu⟩
    · exact h
    · -- a framed body that starts with `body` is no longer than it
      rw [← hu, List.append_assoc] at hts'
      have hsame : body ++ (u ++ p) = (body ++ (u ++ p)) ++ [] := by rw [List.append_nil]
      have heq := (hts.unique hts' hsame).1
      have hnil : u = [] := by
        have hlen := congrArg List.length heq
        simp only [List.length_append] at hlen
        exact List.length_eq_zero_iff.mp (by omega)
      rw [← hu, hnil, List.append_nil]

end Sent

end ProxyPP.Http
