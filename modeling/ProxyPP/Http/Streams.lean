import ProxyPP.Http.ChunkedTruncation
import ProxyPP.Http.Conservation
import ProxyPP.Http.Progress
import ProxyPP.Lib.Settling

/-!
# ProxyPP.Http.Streams — forwarding functions as functions of a stream

Where reads bring data and writes succeed, it makes no difference to a forwarding function how the
stream is cut into reads: what becomes of it (`Fate`) and which bytes it leaves are functions of the
stream and of whether the peer closes behind it.  `exactlyOn`, `chunkedOn` and `untilEofOn` are
these functions, and `forwarding_follows_stream` says that the loops compute them.

They are total: malformed bodies, streams that end anywhere and silent peers have their outcome too.
-/

namespace ProxyPP.Http

open ProxyPP ProxyPP.Lib ProxyPP.Http.Details

/-! ## Outcomes of a stream -/

/-- What becomes of a forwarding function: a result, a read that is never answered, or reads at EOF
for ever. -/
inductive Fate
  | returns (ok : Bool)
  | waits
  | spins
  deriving DecidableEq, Repr

def Fate.stop : Fate → Option Stop
  | .returns _ => none
  | .waits => some .blocked
  | .spins => some .outOfFuel

/-- At the end of the stream, where EOF counts as a successful read. -/
def starved (atEof : Bool) : Fate := if atEof then .spins else .waits

/-- `ForwardExactly`: the fate, and what is left of the stream. -/
def exactlyOn (contentLength : UInt64) (atEof : Bool) (stream : Bytes) : Fate × Bytes :=
  if contentLength.toNat ≤ stream.length then
    (.returns true, stream.drop contentLength.toNat)
  else (starved atEof, [])

/-- `ForwardUntilEof` -/
def untilEofOn (atEof : Bool) : Fate × Bytes := (if atEof then .returns true else .waits, [])

theorem drop_lt {stream : Bytes} {k : ℕ} (h : findCrlf stream = some k) (n : ℕ) :
    (stream.drop (k + 2 + n)).length < stream.length := by
  have hle := findCrlf_add_two_le h
  rw [List.length_drop]
  omega

/-- The trailers of `ForwardChunked`. -/
def trailersOn (atEof : Bool) (stream : Bytes) : Fate × Bytes :=
  match h : findCrlf stream with
  | none => (starved atEof, stream)
  | some k =>
    if k = 0 then (.returns true, stream.drop (k + 2 + 0))
    else trailersOn atEof (stream.drop (k + 2 + 0))
termination_by stream.length
decreasing_by exact drop_lt h 0

/-- `ForwardChunked` -/
def chunkedOn (atEof : Bool) (stream : Bytes) : Fate × Bytes :=
  match _hk : findCrlf stream with
  | none => (if atEof then .returns false else .waits, stream)
  | some k =>
    match parseChunkSizeLine (stream.take k) with
    | none => (.returns false, stream)
    | some size =>
      if size = 0 then trailersOn atEof (stream.drop (k + 2))
      else if size > sizeMax - 2 then (.returns false, stream.drop (k + 2))
      else if (stream.drop (k + 2)).length < size.toNat + 2 then (starved atEof, [])
      else chunkedOn atEof (stream.drop (k + 2 + (size.toNat + 2)))
termination_by stream.length
decreasing_by exact drop_lt _hk _

/-! ### Line by line -/

section Lines

variable {atEof : Bool} {line rest : Bytes}

theorem trailersOn_open (h : findCrlf rest = none) :
    trailersOn atEof rest = (starved atEof, rest) := by
  rw [trailersOn]
  split
  · rfl
  · rename_i k hk
    rw [h] at hk
    cases hk

theorem trailersOn_line (h : findCrlf line = none) :
    trailersOn atEof (line ++ crlf ++ rest)
      = if line = [] then (.returns true, rest) else trailersOn atEof rest := by
  have hk := findCrlf_line h rest
  have hdrop : (line ++ crlf ++ rest).drop (line.length + 2 + 0) = rest := by
    have hlen : line.length + 2 + 0 = (line ++ crlf).length := by simp
    rw [hlen, List.drop_left]
  rw [trailersOn]
  split
  · rename_i hnone
    rw [hk] at hnone
    cases hnone
  · rename_i k hsome
    rw [hk] at hsome
    obtain rfl := Option.some.inj hsome
    rw [hdrop]
    simp only [List.length_eq_zero_iff]

theorem chunkedOn_open (h : findCrlf rest = none) :
    chunkedOn atEof rest = (if atEof then .returns false else .waits, rest) := by
  rw [chunkedOn]
  split
  · rfl
  · rename_i k hk
    rw [h] at hk
    cases hk

/-- What a size line announces, on the bytes behind it. -/
def announcedOn (atEof : Bool) (size : UInt64) (rest : Bytes) : Fate × Bytes :=
  if size = 0 then trailersOn atEof rest
  else if size > sizeMax - 2 then (.returns false, rest)
  else if rest.length < size.toNat + 2 then (starved atEof, [])
  else chunkedOn atEof (rest.drop (size.toNat + 2))

theorem chunkedOn_line (h : findCrlf line = none) :
    chunkedOn atEof (line ++ crlf ++ rest) = match parseChunkSizeLine line with
      | none => (.returns false, line ++ crlf ++ rest)
      | some size => announcedOn atEof size rest := by
  have hk := findCrlf_line h rest
  have hlen : line.length + 2 = (line ++ crlf).length := by simp
  have htake : (line ++ crlf ++ rest).take line.length = line := by
    rw [List.append_assoc, List.take_left]
  have hdrop : (line ++ crlf ++ rest).drop (line.length + 2) = rest := by
    rw [hlen, List.drop_left]
  rw [chunkedOn]
  split
  · rename_i hnone
    rw [hk] at hnone
    cases hnone
  · rename_i k hsome
    rw [hk] at hsome
    obtain rfl := Option.some.inj hsome
    rw [htake]
    cases parseChunkSizeLine line with
    | none => rfl
    | some size =>
      simp only [announcedOn, ← List.drop_drop, hdrop]

end Lines

/-- What becomes of the loop of `ForwardChunked` from its loop state. -/
def chunkedFrom (atEof : Bool) (v : ChunkedVars) (stream : Bytes) : Fate × Bytes :=
  match v.state with
  | .readChunkSizeLine | .parseChunkSizeLine | .forwardChunkSizeLine => chunkedOn atEof stream
  | .forwardChunkDataWithCrlf =>
    if stream.length < v.chunkBytesRemaining.toNat then (starved atEof, [])
    else chunkedOn atEof (stream.drop v.chunkBytesRemaining.toNat)
  | .forwardTrailers => trailersOn atEof stream
  | .completed => (.returns true, stream)

/-! ### What is left is no more than there was -/

theorem exactlyOn_rest_le (contentLength : UInt64) (atEof : Bool) (stream : Bytes) :
    (exactlyOn contentLength atEof stream).2.length ≤ stream.length := by
  unfold exactlyOn
  by_cases hle : contentLength.toNat ≤ stream.length
  · rw [if_pos hle, List.length_drop]
    exact Nat.sub_le _ _
  · rw [if_neg hle]
    exact Nat.zero_le _

theorem trailersOn_rest_le (atEof : Bool) (stream : Bytes) :
    (trailersOn atEof stream).2.length ≤ stream.length := by
  fun_induction trailersOn atEof stream with
  | case1 stream hk => exact Nat.le_refl _
  | case2 stream hk => exact (List.drop_suffix _ _).length_le
  | case3 stream k hk h0 ih => exact ih.trans (List.drop_suffix _ _).length_le

theorem chunkedOn_rest_le (atEof : Bool) (stream : Bytes) :
    (chunkedOn atEof stream).2.length ≤ stream.length := by
  fun_induction chunkedOn atEof stream with
  | case1 stream hk => exact Nat.le_refl _
  | case2 stream k hk hparse => exact Nat.le_refl _
  | case3 stream k hk hparse =>
    exact (trailersOn_rest_le _ _).trans (List.drop_suffix _ _).length_le
  | case4 stream k hk size hparse h0 hmax => exact (List.drop_suffix _ _).length_le
  | case5 stream k hk size hparse h0 hmax hshort => exact Nat.zero_le _
  | case6 stream k hk size hparse h0 hmax hshort ih =>
    exact ih.trans (List.drop_suffix _ _).length_le

/-! ## Operations on a link that flows -/

/-- Octets were moved, and the link still flows. -/
structure Kept (l l' : Link) : Prop where
  moved : MovedOn l l'
  flows : l'.Flows

theorem Kept.refl {l : Link} (h : l.Flows) : Kept l l := ⟨MovedOn.refl l, h⟩

theorem Kept.trans {l l₁ l₂ : Link} (h : Kept l l₁) (h' : Kept l₁ l₂) : Kept l l₂ :=
  ⟨h.moved.trans h'.moved, h'.flows⟩

theorem MovedOn.atEof {l l' : Link} (h : MovedOn l l') :
    l'.fromPeer.atEof = l.fromPeer.atEof := by
  obtain ⟨tx, rx, hm⟩ := h
  rw [hm.fromPeer]

theorem read_flows {l : Link} (h : l.Flows) (hs : l.fromPeer.stream ≠ []) :
    ∃ n l', 0 < n ∧ readSomeFromPeer l = .ok (some ⟨n, false⟩) l' ∧ l'.ahead = l.ahead ∧
      Kept l l' ∧ l'.fromPeer.incoming.length < l.fromPeer.incoming.length ∧
      l'.readBuffer.length = l.readBuffer.length + n := by
  obtain ⟨n, l', hn, hr, hahead, hsrc, htgt, hlt⟩ := readSomeFromPeer_data h.source hs
  obtain ⟨rx, hm, hres⟩ := (readSomeFromPeer_ends l).ok hr
  have hlen := congrArg List.length hm.buffer
  have hrx : n = rx.length := (hres _ rfl).1
  refine ⟨n, l', hn, hr, hahead, ⟨⟨[], rx, hm⟩, ⟨hsrc, htgt ▸ h.target⟩⟩, hlt, ?_⟩
  rw [List.nil_append, List.length_append] at hlen
  omega

/-- A read behind the end of the stream changes nothing. -/
theorem read_end {l : Link} (h : l.Flows) (hs : l.fromPeer.stream = []) :
    readSomeFromPeer l
      = if l.fromPeer.atEof then .ok (some ⟨0, true⟩) l else .error .blocked l := by
  rw [readSomeFromPeer_nil fun _ => incoming_eq_nil h.source hs, if_pos h.source.1]

theorem write_flows {l : Link} (h : l.Flows) {n : ℕ} (hn : n ≤ l.readBuffer.length) :
    ∃ l', writeToPeer n l = .ok (some n) l' ∧ Kept l l' ∧ l'.fromPeer = l.fromPeer ∧
      l'.readBuffer = l.readBuffer.drop n ∧
      l.ahead = (text l.readBuffer).take n ++ l'.ahead := by
  have hr := writeToPeer_ok h.target hn
  have hm := moved_written l l.targetPeer.writes.tail n
  refine ⟨_, hr, ⟨⟨_, _, hm⟩, ⟨h.source, h.target.1, fun w hw => ?_⟩⟩, rfl, rfl, ?_⟩
  · exact h.target.2 w (List.mem_of_mem_tail hw)
  · rw [hm.ahead, text_take]

/-! ## `ForwardChunked` -/

/-- What an iteration from `v` does on a link that flows. -/
inductive Turn (v : ChunkedVars) (l : Link) : EStateM.Result Stop Link (ChunkedVars ⊕ Bool) → Prop
  | goes {w : ChunkedVars} {t : Link} (hk : Kept l t) (hloc : Located w (text t.readBuffer))
      (hsame : chunkedFrom l.fromPeer.atEof w t.ahead = chunkedFrom l.fromPeer.atEof v l.ahead)
      (hlt : chunkedMeasure w t < chunkedMeasure v l) : Turn v l (.ok (.inl w) t)
  | leaves {ok : Bool} {t : Link} (hk : Kept l t)
      (hsame : chunkedFrom l.fromPeer.atEof v l.ahead = (.returns ok, t.ahead)) :
      Turn v l (.ok (.inr ok) t)
  | waits (hsame : chunkedFrom l.fromPeer.atEof v l.ahead = (.waits, l.ahead)) :
      Turn v l (.error .blocked l)
  | repeats (hsame : chunkedFrom l.fromPeer.atEof v l.ahead = (.spins, l.ahead)) :
      Turn v l (.ok (.inl v) l)

section Turns

variable {v : ChunkedVars} {l : Link}

/-- A read; `again` says whether the loop goes on at EOF. -/
theorem Turn.read (h : l.Flows) (hloc : Located v (text l.readBuffer))
    (hany : ∀ b b', Located v b → Located v b')
    {m : Option ReadSomeResult → EStateM Stop Link (ChunkedVars ⊕ Bool)}
    (hdata : ∀ n, 0 < n → m (some ⟨n, false⟩) = pure (.inl v)) (again : Bool)
    (heof : m (some ⟨0, true⟩) = pure (if again then .inl v else .inr false))
    (hend : l.fromPeer.stream = [] → chunkedFrom l.fromPeer.atEof v l.ahead
      = (if l.fromPeer.atEof then if again then .spins else .returns false else .waits, l.ahead)) :
    Turn v l ((readSomeFromPeer >>= m) l) := by
  by_cases hs : l.fromPeer.stream = []
  · have hr := read_end h hs
    have hplan := hend hs
    cases hat : l.fromPeer.atEof with
    | false =>
      rw [hat] at hr
      rw [bind_error hr]
      refine .waits ?_
      rw [hplan, hat]
      rfl
    | true =>
      rw [hat] at hr
      rw [bind_ok hr, heof]
      cases again with
      | true =>
        refine .repeats ?_
        rw [hplan, hat]
        rfl
      | false =>
        refine .leaves (Kept.refl h) ?_
        rw [hplan, hat]
        rfl
  · obtain ⟨n, l', hn, hr, hahead, hk, hlt, -⟩ := read_flows h hs
    rw [bind_ok hr, hdata n hn]
    refine .goes hk (hany _ _ hloc) (by rw [hahead]) ?_
    rw [chunkedMeasure, chunkedMeasure, hahead]
    omega

/-- A write of the front of the buffer. -/
theorem Turn.write (h : l.Flows) {n : ℕ} (hn : n ≤ l.readBuffer.length) (hpos : 0 < n)
    {m : Option ℕ → EStateM Stop Link (ChunkedVars ⊕ Bool)} {r : ChunkedVars ⊕ Bool}
    (hm : m (some n) = pure r)
    (hnext : ∀ q, l.ahead = (text l.readBuffer).take n ++ q →
      Sum.elim (fun w => (∀ b, Located w b) ∧
          chunkedFrom l.fromPeer.atEof w q = chunkedFrom l.fromPeer.atEof v l.ahead)
        (fun ok => chunkedFrom l.fromPeer.atEof v l.ahead = (.returns ok, q)) r) :
    Turn v l ((writeToPeer n >>= m) l) := by
  obtain ⟨l', hr, hk, hfrom, -, hahead⟩ := write_flows h hn
  have hq := hnext l'.ahead hahead
  rw [bind_ok hr, hm]
  rcases r with w | ok
  · obtain ⟨hloc, hsame⟩ := hq
    refine .goes hk (hloc _) hsame ?_
    have hlen := congrArg List.length hahead
    have hrank : stateRank w.state ≤ 2 := by cases w.state <;> decide
    rw [List.length_append, List.length_take, length_text] at hlen
    rw [chunkedMeasure, chunkedMeasure, hfrom]
    omega
  · exact .leaves hk hq

variable {len : ℕ} {size rem : UInt64}

theorem turn_readChunkSizeLine (h : l.Flows) : Turn ⟨.readChunkSizeLine, len, size, rem⟩ l
    (forwardChunkedStep ⟨.readChunkSizeLine, len, size, rem⟩ l) := by
  cases hk : findCrlf (text l.readBuffer) with
  | some k =>
    simp only [forwardChunkedStep, bind_ok (get_run l), hk]
    exact .goes (Kept.refl h) hk rfl (Nat.lt_succ_self _)
  | none =>
    simp only [forwardChunkedStep, bind_ok (get_run l), hk]
    refine Turn.read (v := ⟨.readChunkSizeLine, len, size, rem⟩) h trivial (fun _ _ h => h)
      (fun n hn => if_neg hn.ne') false (if_pos rfl) fun hs => ?_
    show chunkedOn _ _ = _
    rw [chunkedOn_open (by rw [Link.ahead, hs, List.append_nil, hk])]
    rfl

theorem turn_parseChunkSizeLine (h : l.Flows) (hk : findCrlf (text l.readBuffer) = some len) :
    Turn ⟨.parseChunkSizeLine, len, size, rem⟩ l
      (forwardChunkedStep ⟨.parseChunkSizeLine, len, size, rem⟩ l) := by
  simp only [forwardChunkedStep, bind_ok (get_run l), bufferPrefixToString_of_findCrlf hk]
  cases hparse : parseChunkSizeLine ((text l.readBuffer).take len) with
  | some n => exact .goes (Kept.refl h) ⟨hk, hparse⟩ rfl (Nat.lt_succ_self _)
  | none =>
    refine .leaves (Kept.refl h) ?_
    obtain ⟨q, hq⟩ := ahead_line hk
    show chunkedOn _ _ = _
    rw [hq, chunkedOn_line (findCrlf_cut hk).1, hparse]

theorem turn_forwardChunkSizeLine (h : l.Flows) (hk : findCrlf (text l.readBuffer) = some len)
    (hparse : parseChunkSizeLine ((text l.readBuffer).take len) = some size) :
    Turn ⟨.forwardChunkSizeLine, len, size, rem⟩ l
      (forwardChunkedStep ⟨.forwardChunkSizeLine, len, size, rem⟩ l) := by
  have hle := findCrlf_add_two_le hk
  rw [length_text] at hle
  -- what becomes of the stream is what the line announces
  have hline : ∀ q, l.ahead = (text l.readBuffer).take (len + 2) ++ q →
      chunkedOn l.fromPeer.atEof l.ahead = announcedOn l.fromPeer.atEof size q := by
    intro q hq
    rw [hq, (findCrlf_cut hk).2, chunkedOn_line (findCrlf_cut hk).1, hparse]
  simp only [forwardChunkedStep]
  by_cases h0 : size = 0
  · subst h0
    refine Turn.write (r := .inl ⟨.forwardTrailers, len, 0, rem⟩) h hle (by omega) rfl ?_
    intro q hq
    refine ⟨fun _ => trivial, ?_⟩
    show trailersOn _ q = chunkedOn _ _
    rw [hline q hq]
    rfl
  by_cases hmax : size > sizeMax - 2
  · refine Turn.write (r := .inr false) h hle (by omega) ?_ ?_
    · simp only [if_neg h0, if_pos hmax]
    · intro q hq
      show chunkedOn _ _ = _
      rw [hline q hq, announcedOn, if_neg h0, if_pos hmax]
  · have hsize := toNat_add_two (toNat_le_maxChunkSize hmax)
    refine Turn.write (r := .inl ⟨.forwardChunkDataWithCrlf, len, size, size + 2⟩) h hle
      (by omega) ?_ ?_
    · simp only [if_neg h0, if_neg hmax]
    · intro q hq
      refine ⟨fun _ => ?_, ?_⟩
      · show 0 < (size + 2).toNat
        omega
      · show (if q.length < (size + 2).toNat then _ else _) = chunkedOn _ _
        rw [hline q hq, announcedOn, if_neg h0, if_neg hmax, hsize]

theorem turn_forwardChunkDataWithCrlf (h : l.Flows) (hpos : 0 < rem.toNat) :
    Turn ⟨.forwardChunkDataWithCrlf, len, size, rem⟩ l
      (forwardChunkedStep ⟨.forwardChunkDataWithCrlf, len, size, rem⟩ l) := by
  simp only [forwardChunkedStep, bind_ok (get_run l)]
  by_cases hempty : l.readBuffer.length = 0
  · rw [if_pos hempty]
    refine Turn.read (v := ⟨.forwardChunkDataWithCrlf, len, size, rem⟩) h hpos (fun _ _ h => h)
      (fun _ _ => rfl) true rfl fun hs => ?_
    have hahead : l.ahead = [] := by
      rw [Link.ahead, hs, List.append_nil, List.length_eq_zero_iff.mp hempty]
      rfl
    show (if l.ahead.length < rem.toNat then _ else _) = _
    rw [hahead, if_pos (by simpa using hpos)]
    rfl
  · rw [if_neg hempty]
    obtain ⟨n, hn⟩ : ∃ n, n = min rem.toNat l.readBuffer.length := ⟨_, rfl⟩
    rw [← hn]
    have hrem : (rem - UInt64.ofNat n).toNat = rem.toNat - n := toNat_remaining (by omega)
    refine Turn.write (r := .inl ⟨_, len, size, rem - UInt64.ofNat n⟩) h (by omega) (by omega) rfl
      fun q hq => ⟨fun b => ?_, ?_⟩
    · by_cases hz : rem - UInt64.ofNat n = 0
      · rw [if_pos hz]; trivial
      · rw [if_neg hz]; exact one_le_toNat hz
    · have hw : ((text l.readBuffer).take n).length = n := by
        rw [List.length_take, length_text]
        omega
      have hlen := congrArg List.length hq
      rw [List.length_append, hw] at hlen
      show _ = (if l.ahead.length < rem.toNat then _ else _)
      by_cases hz : rem - UInt64.ofNat n = 0
      · rw [hz] at hrem
        have h00 : (0 : UInt64).toNat = 0 := rfl
        have hall : rem.toNat = ((text l.readBuffer).take n).length := by omega
        rw [if_pos hz, if_neg (by omega), hq, hall, List.drop_left]
        rfl
      · rw [if_neg hz]
        have hlt := one_le_toNat hz
        show (if q.length < (rem - UInt64.ofNat n).toNat then _ else _) = _
        rw [hrem]
        by_cases hshort : l.ahead.length < rem.toNat
        · rw [if_pos hshort, if_pos (by omega)]
        · have hdrop : ((text l.readBuffer).take n ++ q).drop rem.toNat
              = q.drop (rem.toNat - n) := by
            rw [List.drop_append, List.drop_eq_nil_of_le (by omega), List.nil_append, hw]
          rw [if_neg hshort, if_neg (by omega), hq, hdrop]

theorem turn_forwardTrailers (h : l.Flows) : Turn ⟨.forwardTrailers, len, size, rem⟩ l
    (forwardChunkedStep ⟨.forwardTrailers, len, size, rem⟩ l) := by
  cases hk : findCrlf (text l.readBuffer) with
  | none =>
    simp only [forwardChunkedStep, bind_ok (get_run l), hk]
    refine Turn.read (v := ⟨.forwardTrailers, len, size, rem⟩) h trivial (fun _ _ h => h)
      (fun _ _ => rfl) true rfl fun hs => ?_
    show trailersOn _ _ = _
    rw [trailersOn_open (by rw [Link.ahead, hs, List.append_nil, hk])]
    rfl
  | some k =>
    simp only [forwardChunkedStep, bind_ok (get_run l), hk]
    have hle := findCrlf_add_two_le hk
    rw [length_text] at hle
    refine Turn.write
      (r := .inl ⟨if k = 0 then .completed else .forwardTrailers, len, size, rem⟩) h hle (by omega)
      rfl fun q hq => ⟨fun b => ?_, ?_⟩
    · by_cases h0 : k = 0
      · rw [if_pos h0]; trivial
      · rw [if_neg h0]; trivial
    · have hlen : ((text l.readBuffer).take k).length = k := by
        rw [List.length_take, length_text]
        omega
      have hnil : (text l.readBuffer).take k = [] ↔ k = 0 := by
        rw [← List.length_eq_zero_iff, hlen]
      show _ = trailersOn _ _
      rw [hq, (findCrlf_cut hk).2, trailersOn_line (findCrlf_cut hk).1]
      by_cases h0 : k = 0
      · rw [if_pos h0, if_pos (hnil.mpr h0)]
        rfl
      · rw [if_neg h0, if_neg fun h => h0 (hnil.mp h)]
        rfl

theorem turn (h : l.Flows) (hloc : Located v (text l.readBuffer)) :
    Turn v l (forwardChunkedStep v l) := by
  rcases v with ⟨state, len, size, rem⟩
  cases state with
  | readChunkSizeLine => exact turn_readChunkSizeLine h
  | parseChunkSizeLine => exact turn_parseChunkSizeLine h hloc
  | forwardChunkSizeLine => exact turn_forwardChunkSizeLine h hloc.1 hloc.2
  | forwardChunkDataWithCrlf => exact turn_forwardChunkDataWithCrlf h hloc
  | forwardTrailers => exact turn_forwardTrailers h
  | completed => exact .leaves (Kept.refl h) rfl

end Turns

/-! ## The forwarding functions -/

/-- With enough fuel `m` meets the fate of its stream, with this rest of it ahead; every octet is
accounted for. -/
def Computes (m : ℕ → EStateM Stop Link Bool) (l : Link) (outcome : Fate × Bytes) : Prop :=
  Settles m l (fun ok l' => Kept l l' ∧ outcome = (.returns ok, l'.ahead))
    fun e l' => Kept l l' ∧ outcome.1.stop = some e ∧ outcome.2 = l'.ahead

theorem forwardChunked_computes {l : Link} (h : l.Flows) :
    Computes forwardChunked l (chunkedOn l.fromPeer.atEof l.ahead) := by
  refine settles_whileLoop (fun v s => Kept l s ∧ Located v (text s.readBuffer) ∧
    chunkedFrom l.fromPeer.atEof v s.ahead = chunkedOn l.fromPeer.atEof l.ahead) chunkedMeasure ?_
    ⟨Kept.refl h, trivial, rfl⟩
  rintro v s ⟨hk, hloc, hsame⟩
  have hat : s.fromPeer.atEof = l.fromPeer.atEof := hk.moved.atEof
  have hturn := turn hk.flows hloc
  generalize hr : forwardChunkedStep v s = r at hturn
  cases hturn with
  | goes hk' hloc' hsame' hlt =>
    rw [hat] at hsame'
    exact .inl ⟨_, _, rfl, ⟨hk.trans hk', hloc', hsame'.trans hsame⟩, hlt⟩
  | leaves hk' hsame' =>
    rw [hat] at hsame'
    exact .inr (.inl ⟨_, _, rfl, hk.trans hk', hsame.symm.trans hsame'⟩)
  | waits hsame' =>
    rw [hat, hsame] at hsame'
    exact .inr (.inr (.inl ⟨_, _, rfl, hk, by rw [hsame']; rfl, by rw [hsame']⟩))
  | repeats hsame' =>
    rw [hat, hsame] at hsame'
    refine .inr (.inr (.inr fun fuel => ?_))
    have hstay : ∀ v₁ s₁, v₁ = v ∧ s₁ = s →
        ∃ v₂ s₂, forwardChunkedStep v₁ s₁ = .ok (.inl v₂) s₂ ∧ v₂ = v ∧ s₂ = s := by
      rintro v₁ s₁ ⟨hv, hs⟩
      rw [hv, hs]
      exact ⟨v, s, hr, rfl, rfl⟩
    obtain ⟨v₁, s₁, hrun, -, hs⟩ := whileLoop_spins Stop.outOfFuel
      (fun v₁ s₁ => v₁ = v ∧ s₁ = s) hstay fuel ⟨rfl, rfl⟩
    rw [hs] at hrun
    exact ⟨_, hrun, hk, by rw [hsame']; rfl, by rw [hsame']⟩

theorem nothing_ahead {l : Link} : l.ahead = [] ↔ l.readBuffer = [] ∧ l.fromPeer.stream = [] := by
  rw [Link.ahead, List.append_eq_nil_iff, text, List.map_eq_nil_iff]

/-- An iteration of `ForwardExactly` with nothing ahead. -/
theorem forwardExactlyStep_end {contentLength bytesSent : UInt64} {l : Link} (h : l.Flows)
    (hlt : bytesSent < contentLength) (hahead : l.ahead = []) :
    if l.fromPeer.atEof then ∃ l', forwardExactlyStep contentLength bytesSent l
      = .ok (.inl bytesSent) l' ∧ Kept l l' ∧ l'.ahead = []
    else forwardExactlyStep contentLength bytesSent l = .error .blocked l := by
  obtain ⟨hbuf, hs⟩ := nothing_ahead.mp hahead
  have hempty : l.readBuffer.length = 0 := by rw [hbuf]; rfl
  have hread := read_end h hs
  cases hat : l.fromPeer.atEof with
  | false =>
    rw [hat] at hread
    have hrefill : refill l = .error .blocked l := by
      rw [refill, bind_ok (get_run l), if_pos hempty]
      exact bind_error hread
    show forwardExactlyStep contentLength bytesSent l = _
    rw [forwardExactlyStep, if_pos hlt]
    exact bind_error hrefill
  | true =>
    rw [hat] at hread
    have hrefill : refill l = .ok true l := by
      rw [refill, bind_ok (get_run l), if_pos hempty, bind_ok hread]
      rfl
    have hmin : min (contentLength - bytesSent).toNat l.readBuffer.length = 0 := by omega
    obtain ⟨l', hwrite, hk, -, -, hsplit⟩ := write_flows h (Nat.zero_le l.readBuffer.length)
    refine ⟨l', ?_, hk, ?_⟩
    · rw [forwardExactlyStep, if_pos hlt, bind_ok hrefill, if_pos rfl, bind_ok (get_run l), hmin,
        bind_ok hwrite]
      have hzero : bytesSent + UInt64.ofNat 0 = bytesSent := by simp
      simp only [hzero]
      rfl
    · rw [hahead] at hsplit
      exact (List.append_eq_nil_iff.mp hsplit.symm).2

theorem forwardExactly_computes {l : Link} (h : l.Flows) (contentLength : UInt64) :
    Computes (fun fuel => forwardExactly fuel contentLength) l
      (exactlyOn contentLength l.fromPeer.atEof l.ahead) := by
  refine settles_whileLoop (fun b s => Counted contentLength l b s ∧ s.Flows) (fun _ s => s.left)
    ?_ ⟨counted_start contentLength l, h⟩
  rintro b s ⟨hcount, hflows⟩
  obtain ⟨tx, rx, hm, htx, hle⟩ := hcount
  have hahead := hm.ahead
  have hlen := congrArg List.length hahead
  rw [List.length_append, length_text, htx] at hlen
  have hk : Kept l s := ⟨⟨tx, rx, hm⟩, hflows⟩
  by_cases hlt : b < contentLength
  · have hlt' := UInt64.lt_iff_toNat_lt.mp hlt
    by_cases hnil : s.ahead = []
    · -- all of the stream was sent, and it is too short
      have hshort : exactlyOn contentLength l.fromPeer.atEof l.ahead
          = (starved l.fromPeer.atEof, []) := by
        rw [hnil, List.length_nil] at hlen
        rw [exactlyOn, if_neg (by omega)]
      have hend := forwardExactlyStep_end hflows hlt hnil
      rw [hk.moved.atEof] at hend
      cases hat : l.fromPeer.atEof with
      | false =>
        rw [hat] at hend hshort
        exact .inr (.inr (.inl ⟨_, s, hend, hk, by rw [hshort]; rfl, by rw [hshort, hnil]⟩))
      | true =>
        rw [hat] at hshort
        refine .inr (.inr (.inr fun fuel => ?_))
        obtain ⟨b', s', hrun, rfl, hk', hnil'⟩ := whileLoop_spins Stop.outOfFuel
          (fun b' s' => b' = b ∧ Kept l s' ∧ s'.ahead = []) (by
            rintro _ s₁ ⟨rfl, hk₁, hnil₁⟩
            have hend₁ := forwardExactlyStep_end hk₁.flows hlt hnil₁
            rw [hk₁.moved.atEof, hat] at hend₁
            obtain ⟨s₂, hr, hk₂, hnil₂⟩ := hend₁
            exact ⟨_, s₂, hr, rfl, hk₁.trans hk₂, hnil₂⟩) fuel ⟨rfl, hk, hnil⟩
        exact ⟨s', hrun, hk', by rw [hshort]; rfl, by rw [hshort, hnil']⟩
    · obtain ⟨r, t, hr, b', rfl, hflows', -, -, hprog⟩ := forwardExactlyStep_flows hflows hlt hnil
      have hcount' := (forwardExactlyStep_ends ⟨tx, rx, hm, htx, hle⟩).ok hr
      exact .inl ⟨b', t, hr, ⟨hcount', hflows'⟩, hprog⟩
  · have hge := UInt64.le_iff_toNat_le.mp (UInt64.not_lt.mp hlt)
    have hall : (text tx).length = contentLength.toNat := by
      rw [length_text]
      omega
    refine .inr (.inl ⟨true, s, ?_, hk, ?_⟩)
    · rw [forwardExactlyStep, if_neg hlt]
      rfl
    · rw [exactlyOn, if_pos (by omega), hahead, ← hall, List.drop_left]

/-- What is buffered is sent before anything is read. -/
theorem forwardUntilEof_drains {l : Link} (h : l.Flows) : ∃ l₁, Kept l l₁ ∧ l₁.readBuffer = [] ∧
    ∀ fuel, forwardUntilEof fuel l = whileLoop .outOfFuel forwardUntilEofStep fuel () l₁ := by
  by_cases hbuf : l.readBuffer.length > 0
  · obtain ⟨l₁, hwrite, hk, -, hrest, -⟩ := write_flows h (Nat.le_refl l.readBuffer.length)
    have hall : writeAll l.readBuffer.length l = .ok true l₁ := by
      rw [writeAll, bind_ok hwrite]
      rfl
    refine ⟨l₁, hk, by rw [hrest, List.drop_length], fun fuel => ?_⟩
    rw [forwardUntilEof, bind_ok (get_run l), if_pos hbuf, bind_ok hall]
    rfl
  · refine ⟨l, Kept.refl h, List.length_eq_zero_iff.mp (by omega), fun fuel => ?_⟩
    rw [forwardUntilEof, bind_ok (get_run l), if_neg hbuf]
    rfl

theorem forwardUntilEof_computes {l : Link} (h : l.Flows) :
    Computes forwardUntilEof l (untilEofOn l.fromPeer.atEof) := by
  obtain ⟨l₁, hk₁, hbuf₁, hrun⟩ := forwardUntilEof_drains h
  refine Settles.of_eq (settles_whileLoop (fun _ s => Kept l s ∧ s.readBuffer = [])
    (fun _ s => s.fromPeer.incoming.length) ?_ ⟨hk₁, hbuf₁⟩) hrun
  rintro - s ⟨hk, hbuf⟩
  by_cases hs : s.fromPeer.stream = []
  · have hread := read_end hk.flows hs
    have hnil : s.ahead = [] := nothing_ahead.mpr ⟨hbuf, hs⟩
    rw [hk.moved.atEof] at hread
    cases hat : l.fromPeer.atEof with
    | false =>
      rw [hat] at hread
      exact .inr (.inr (.inl ⟨_, s, bind_error hread, hk, rfl, hnil.symm⟩))
    | true =>
      rw [hat] at hread
      refine .inr (.inl ⟨true, s, ?_, hk, by rw [hnil]; rfl⟩)
      rw [forwardUntilEofStep, bind_ok hread]
      rfl
  · obtain ⟨n, s₁, hn, hread, -, hk', hlt, hlen⟩ := read_flows hk.flows hs
    rw [hbuf, List.length_nil, Nat.zero_add] at hlen
    obtain ⟨s₂, hwrite, hk'', hfrom, hrest, -⟩ := write_flows hk'.flows (Nat.le_of_eq hlen.symm)
    have hall : writeAll n s₁ = .ok true s₂ := by
      rw [writeAll, bind_ok hwrite]
      rfl
    refine .inl ⟨(), s₂, ?_, ⟨(hk.trans hk').trans hk'', ?_⟩, ?_⟩
    · rw [forwardUntilEofStep, bind_ok hread]
      dsimp only
      rw [if_pos hn, bind_ok hall]
      rfl
    · rw [hrest, ← hlen, List.drop_length]
    · rwa [hfrom]

/-- **Forwarding follows the stream.**  On a link that flows, each forwarding function computes its
function of the stream, however it is cut into what is buffered and what the reads bring. -/
theorem forwarding_follows_stream (l : Link) (h : l.Flows) :
    (∀ contentLength, Computes (fun fuel => forwardExactly fuel contentLength) l
      (exactlyOn contentLength l.fromPeer.atEof l.ahead)) ∧
    Computes forwardChunked l (chunkedOn l.fromPeer.atEof l.ahead) ∧
    Computes forwardUntilEof l (untilEofOn l.fromPeer.atEof) :=
  ⟨forwardExactly_computes h, forwardChunked_computes h, forwardUntilEof_computes h⟩

/-- A chunk whose data is cut between two reads, in front of EOF. -/
theorem forwarding_follows_stream_cut :
    let l := linkOf (ascii "2\r\na") [ascii "b\r", ascii "\n0\r\n"]
    (∀ contentLength, Computes (fun fuel => forwardExactly fuel contentLength) l
      (exactlyOn contentLength l.fromPeer.atEof l.ahead)) ∧
    Computes forwardChunked l (chunkedOn l.fromPeer.atEof l.ahead) ∧
    Computes forwardUntilEof l (untilEofOn l.fromPeer.atEof) := by
  intro l
  have hfin : l.Finite := linkOf_finite (by decide)
  exact forwarding_follows_stream l ⟨hfin.source.delivers, hfin.target⟩

end ProxyPP.Http
