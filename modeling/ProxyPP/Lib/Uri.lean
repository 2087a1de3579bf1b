import ProxyPP.Bytes

/-!
# ProxyPP.Lib.Uri — absolute URIs

The grammar of absolute URIs as a structure whose parts are well-formed, its text, and a parser.
The parser cuts the text at its delimiters (`split`) and checks the parts; it finds a URI exactly
for its text (`parse_eq_some`), so a text is read in one way only.
-/

namespace ProxyPP.Lib

open ProxyPP

/-! ## Cutting a list at a separator -/

section Cut

variable {α : Type} [DecidableEq α]

/-- What is in front of the first separator, and what is behind it if there is one. -/
def cut (sep : α) : List α → List α × Option (List α)
  | [] => ([], none)
  | x :: l => if x = sep then ([], some l) else ((cut sep l).1.cons x, (cut sep l).2)

/-- A part with a separator in front of it, if it is there. -/
def prefixed (sep : α) : Option (List α) → List α
  | none => []
  | some l => sep :: l

variable {sep : α}

theorem cut_append (sep : α) (l : List α) : (cut sep l).1 ++ prefixed sep (cut sep l).2 = l := by
  induction l with
  | nil => rfl
  | cons x l ih =>
    unfold cut
    by_cases hx : x = sep
    · rw [if_pos hx, hx]
      rfl
    · rw [if_neg hx]
      exact congrArg (x :: ·) ih

theorem cut_of_not_mem {l : List α} (h : sep ∉ l) (o : Option (List α)) :
    cut sep (l ++ prefixed sep o) = (l, o) := by
  induction l with
  | nil =>
    cases o with
    | none => rfl
    | some r => exact if_pos rfl
  | cons x l ih =>
    obtain ⟨hx, hl⟩ := List.ne_and_not_mem_of_not_mem_cons h
    rw [List.cons_append, cut, if_neg (Ne.symm hx), ih hl]

end Cut

namespace Uri

/-! ## Characters -/

def isAlpha (c : UInt8) : Bool := (65 ≤ c && c ≤ 90) || (97 ≤ c && c ≤ 122)

def isDigit (c : UInt8) : Bool := 48 ≤ c && c ≤ 57

def isHexDigit (c : UInt8) : Bool := isDigit c || (65 ≤ c && c ≤ 70) || (97 ≤ c && c ≤ 102)

/-- ALPHA, DIGIT and `-._~` -/
def isUnreserved (c : UInt8) : Bool := isAlpha c || isDigit c || (ascii "-._~").contains c

def isSubDelim (c : UInt8) : Bool := (ascii "!$&'()*+,;=").contains c

def isUserinfoChar (c : UInt8) : Bool := isUnreserved c || isSubDelim c || c == 58

def isRegNameChar (c : UInt8) : Bool := isUnreserved c || isSubDelim c

/-- `pchar` and the slash between two segments. -/
def isPathChar (c : UInt8) : Bool := isUnreserved c || isSubDelim c || (ascii ":@/").contains c

def isQueryChar (c : UInt8) : Bool := isPathChar c || c == 63

/-- Characters of a class, and percent-encoded ones. -/
def encoded (ok : UInt8 → Bool) : Bytes → Bool
  | [] => true
  | 37 :: a :: b :: s => isHexDigit a && isHexDigit b && encoded ok s
  | c :: s => ok c && encoded ok s

theorem mem_of_encoded {ok : UInt8 → Bool} {s : Bytes} (h : encoded ok s = true) :
    ∀ c ∈ s, ok c = true ∨ c = 37 ∨ isHexDigit c = true := by
  fun_induction encoded ok s with
  | case1 => simp
  | case2 a b s ih =>
    simp only [Bool.and_eq_true] at h
    intro c hc
    rcases List.mem_cons.mp hc with rfl | hc
    · exact Or.inr (Or.inl rfl)
    rcases List.mem_cons.mp hc with rfl | hc
    · exact Or.inr (Or.inr h.1.1)
    rcases List.mem_cons.mp hc with rfl | hc
    · exact Or.inr (Or.inr h.1.2)
    · exact ih h.2 c hc
  | case3 d s _ ih =>
    simp only [Bool.and_eq_true] at h
    intro c hc
    rcases List.mem_cons.mp hc with rfl | hc
    · exact Or.inl h.1
    · exact ih h.2 c hc

/-- A delimiter outside the class does not occur. -/
theorem not_mem_of_encoded {ok : UInt8 → Bool} {s : Bytes} (h : encoded ok s = true) (c : UInt8)
    (hok : ok c = false := by decide) (hpct : c ≠ 37 := by decide)
    (hhex : isHexDigit c = false := by decide) : c ∉ s := by
  intro hc
  rcases mem_of_encoded h c hc with h | h | h
  · rw [hok] at h
    cases h
  · exact hpct h
  · rw [hhex] at h
    cases h

theorem not_mem_of_all {ok : UInt8 → Bool} {s : Bytes} (h : s.all ok = true) (c : UInt8)
    (hok : ok c = false := by decide) : c ∉ s := by
  intro hc
  have := List.all_eq_true.mp h c hc
  rw [hok] at this
  cases this

/-! ## Hosts -/

/-- One to four hexadecimal digits. -/
def h16 (s : Bytes) : Bool := 1 ≤ s.length && s.length ≤ 4 && s.all isHexDigit

/-- A decimal number up to 255 without leading zeros. -/
def decOctet (s : Bytes) : Bool :=
  1 ≤ s.length && s.length ≤ 3 && s.all isDigit && (s.length == 1 || s.head? != some 48) &&
    s.foldl (fun n c => n * 10 + (c.toNat - 48)) 0 ≤ 255

def ipv4Address (s : Bytes) : Bool :=
  (s.splitOn 46).length == 4 && (s.splitOn 46).all decOctet

/-- The 16-bit units of groups with colons between them. -/
def units (s : Bytes) : Option ℕ :=
  if s = [] then some 0
  else if (s.splitOn 58).all h16 then some (s.splitOn 58).length
  else none

/-- The last group may be an IPv4 address, which is two units. -/
def unitsLs32 (s : Bytes) : Option ℕ :=
  if (s.splitOn 58).dropLast.all h16 && ((s.splitOn 58).getLast?.any ipv4Address) then
    some ((s.splitOn 58).length + 1)
  else units s

/-- Eight units, or a `::` that stands for at least one of them. -/
def ipv6Address (s : Bytes) : Bool :=
  unitsLs32 s == some 8 || (List.range s.length).any fun i =>
    (s.drop i).take 2 == [58, 58] && (units (s.take i)).any fun n =>
      (unitsLs32 (s.drop (i + 2))).any fun m => n + m ≤ 7

/-- `v` with a version, a dot, and an address. -/
def ipvFuture : Bytes → Bool
  | v :: s => (v == 118 || v == 86) && (cut 46 s).1 != [] && (cut 46 s).1.all isHexDigit &&
      (cut 46 s).2.any fun address => address != [] && address.all isUserinfoChar
  | [] => false

/-- What may stand between brackets. -/
def ipAddress (s : Bytes) : Bool := s.all isUserinfoChar && (ipv6Address s || ipvFuture s)

def ipLiteral : Bytes → Bool
  | 91 :: s => s.getLast? == some 93 && ipAddress s.dropLast
  | _ => false

/-- An IP literal or a registered name; an IPv4 address is a case of the latter. -/
def isHost (s : Bytes) : Bool := ipLiteral s || encoded isRegNameChar s

theorem exists_of_ipLiteral {s : Bytes} (h : ipLiteral s = true) :
    ∃ address, s = 91 :: (address ++ [93]) ∧ ipAddress address = true := by
  unfold ipLiteral at h
  split at h
  · rename_i s
    obtain ⟨hlast, haddress⟩ := Bool.and_eq_true_iff.mp h
    have hlast : s.getLast? = some 93 := by simpa using hlast
    refine ⟨s.dropLast, ?_, haddress⟩
    rw [List.dropLast_append_getLast? 93 hlast]
  · cases h

/-- The host is what stands in front of the colon of the port, if it has no brackets. -/
theorem host_cases {s : Bytes} (h : isHost s = true) :
    (∃ address, s = 91 :: (address ++ [93]) ∧ ipAddress address = true) ∨
      s.head? ≠ some 91 ∧ encoded isRegNameChar s = true := by
  rcases Bool.or_eq_true_iff.mp h with h | h
  · exact Or.inl (exists_of_ipLiteral h)
  · refine Or.inr ⟨fun hhead => ?_, h⟩
    exact absurd (List.mem_of_mem_head? hhead) (not_mem_of_encoded h 91)

theorem not_mem_of_isHost {s : Bytes} (h : isHost s = true) (c : UInt8)
    (hok : isUserinfoChar c = false := by decide) (hreg : isRegNameChar c = false := by decide)
    (hpct : c ≠ 37 := by decide) (hhex : isHexDigit c = false := by decide)
    (hopen : c ≠ 91 := by decide) (hclose : c ≠ 93 := by decide) : c ∉ s := by
  rcases host_cases h with ⟨address, rfl, haddress⟩ | ⟨-, hname⟩
  · have hall := not_mem_of_all (Bool.and_eq_true_iff.mp haddress).1 c hok
    simp [hopen, hclose, hall]
  · exact not_mem_of_encoded hname c hreg hpct hhex

/-! ## The parts of a URI -/

structure Authority where
  userinfo : Option Bytes
  host : Bytes
  port : Option Bytes
  deriving DecidableEq, Repr

structure Parts where
  scheme : Bytes
  authority : Option Authority
  path : Bytes
  query : Option Bytes
  deriving DecidableEq, Repr

def isScheme : Bytes → Bool
  | c :: s => isAlpha c && s.all fun c => isAlpha c || isDigit c || (ascii "+-.").contains c
  | [] => false

/-- A path behind an authority starts with a slash, and any other one with at most one. -/
def isPath (hasAuthority : Bool) (s : Bytes) : Bool :=
  encoded isPathChar s && if hasAuthority then s == [] || s.head? == some 47
    else s.take 2 != [47, 47]

def Authority.WellFormed (a : Authority) : Prop :=
  (∀ s ∈ a.userinfo, encoded isUserinfoChar s = true) ∧ isHost a.host = true ∧
    ∀ s ∈ a.port, s.all isDigit = true

instance (a : Authority) : Decidable a.WellFormed :=
  inferInstanceAs (Decidable (_ ∧ _ ∧ _))

def Parts.WellFormed (p : Parts) : Prop :=
  isScheme p.scheme = true ∧ (∀ a ∈ p.authority, a.WellFormed) ∧
    isPath p.authority.isSome p.path = true ∧ ∀ s ∈ p.query, encoded isQueryChar s = true

instance (p : Parts) : Decidable p.WellFormed :=
  inferInstanceAs (Decidable (_ ∧ _ ∧ _ ∧ _))

/-! ## Their text -/

/-- `host [ ":" port ]` -/
def Authority.address (a : Authority) : Bytes := a.host ++ prefixed 58 a.port

/-- `[ userinfo "@" ] host [ ":" port ]` -/
def Authority.text (a : Authority) : Bytes :=
  match a.userinfo with
  | none => a.address
  | some s => s ++ 64 :: a.address

/-- `[ "//" authority ] path` -/
def hier (authority : Option Authority) (path : Bytes) : Bytes :=
  match authority with
  | none => path
  | some a => 47 :: 47 :: (a.text ++ path)

/-- `path [ "?" query ]` -/
def Parts.target (p : Parts) : Bytes := p.path ++ prefixed 63 p.query

def Parts.text (p : Parts) : Bytes :=
  p.scheme ++ 58 :: (hier p.authority p.path ++ prefixed 63 p.query)

/-! ## Cutting a text into parts -/

/-- An address in brackets ends behind the first closing one. -/
def splitAddress : Bytes → Bytes × Option Bytes
  | 91 :: s => match cut 93 s with
    | (_, none) => (91 :: s, none)
    | (address, some rest) => (91 :: (address ++ 93 :: (cut 58 rest).1), (cut 58 rest).2)
  | s => cut 58 s

def splitAuthority (s : Bytes) : Authority :=
  match cut 64 s with
  | (_, none) => ⟨none, (splitAddress s).1, (splitAddress s).2⟩
  | (userinfo, some s) => ⟨some userinfo, (splitAddress s).1, (splitAddress s).2⟩

def splitHier : Bytes → Option Authority × Bytes
  | 47 :: 47 :: s => (some (splitAuthority (cut 47 s).1), prefixed 47 (cut 47 s).2)
  | s => (none, s)

def split (s : Bytes) : Option Parts :=
  match cut 58 s with
  | (_, none) => none
  | (scheme, some s) =>
    some ⟨scheme, (splitHier (cut 63 s).1).1, (splitHier (cut 63 s).1).2, (cut 63 s).2⟩

theorem splitAddress_append (s : Bytes) :
    (splitAddress s).1 ++ prefixed 58 (splitAddress s).2 = s := by
  unfold splitAddress
  split
  · rename_i s
    split
    · rename_i h
      exact List.append_nil _
    · rename_i address rest h
      have hs := cut_append 93 s
      rw [h] at hs
      rw [List.cons_append, List.append_assoc, List.cons_append, cut_append]
      exact congrArg (91 :: ·) hs
  · exact cut_append 58 _

theorem splitAuthority_text (s : Bytes) : (splitAuthority s).text = s := by
  have hs := cut_append 64 s
  unfold splitAuthority
  split
  · exact splitAddress_append s
  · rename_i userinfo rest h
    rw [h] at hs
    show userinfo ++ 64 :: ((splitAddress rest).1 ++ prefixed 58 (splitAddress rest).2) = s
    rw [splitAddress_append]
    exact hs

theorem splitHier_text (s : Bytes) : hier (splitHier s).1 (splitHier s).2 = s := by
  unfold splitHier
  split
  · rename_i s
    show 47 :: 47 :: ((splitAuthority (cut 47 s).1).text ++ prefixed 47 (cut 47 s).2) = _
    rw [splitAuthority_text, cut_append]
  · rfl

/-- Parts that were cut out of a text make it up. -/
theorem split_sound {s : Bytes} {p : Parts} (h : split s = some p) : p.text = s := by
  have hs := cut_append 58 s
  unfold split at h
  split at h
  · cases h
  · rename_i scheme rest hcut
    obtain rfl := Option.some.inj h
    rw [hcut] at hs
    rw [Parts.text]
    dsimp only
    rw [splitHier_text, cut_append]
    exact hs

theorem splitAddress_of_head {s : Bytes} (h : s.head? ≠ some 91) : splitAddress s = cut 58 s := by
  unfold splitAddress
  split
  · exact absurd rfl h
  · rfl

theorem splitAddress_bracket {s address rest : Bytes} (h : cut 93 s = (address, some rest)) :
    splitAddress (91 :: s) = (91 :: (address ++ 93 :: (cut 58 rest).1), (cut 58 rest).2) := by
  rw [splitAddress, h]

theorem splitAddress_complete {a : Authority} (h : a.WellFormed) :
    splitAddress a.address = (a.host, a.port) := by
  obtain ⟨-, hhost, -⟩ := h
  unfold Authority.address
  rcases host_cases hhost with ⟨address, heq, haddress⟩ | ⟨hhead, hname⟩
  · have hclose : (93 : UInt8) ∉ address := not_mem_of_all (Bool.and_eq_true_iff.mp haddress).1 93
    have hport := @cut_of_not_mem UInt8 _ 58 [] List.not_mem_nil a.port
    have hcut := cut_of_not_mem hclose (some (prefixed 58 a.port))
    rw [List.nil_append] at hport
    rw [heq, List.cons_append, List.append_assoc]
    show splitAddress (91 :: (address ++ prefixed 93 (some (prefixed 58 a.port)))) = _
    rw [splitAddress_bracket hcut, hport]
  · rw [splitAddress_of_head, cut_of_not_mem (not_mem_of_encoded hname 58)]
    cases hs : a.host with
    | nil => cases a.port <;> simp [prefixed]
    | cons c s =>
      rw [hs] at hhead
      exact hhead

theorem not_mem_text {a : Authority} (h : a.WellFormed) : (47 : UInt8) ∉ a.text ∧
    (63 : UInt8) ∉ a.text ∧ (64 : UInt8) ∉ a.address := by
  obtain ⟨hinfo, hhost, hport⟩ := h
  have haddress : ∀ c : UInt8, c ∉ a.host → isDigit c = false → c ≠ 58 → c ∉ a.address := by
    intro c hc hdigit hcolon
    unfold Authority.address
    cases hp : a.port with
    | none => simpa [prefixed] using hc
    | some s => simpa [prefixed, hc, hcolon] using not_mem_of_all (hport s hp) c hdigit
  have htext : ∀ c : UInt8, (∀ s ∈ a.userinfo, c ∉ s) → c ∉ a.address → c ≠ 64 → c ∉ a.text := by
    intro c hc haddr hat
    unfold Authority.text
    cases hu : a.userinfo with
    | none => exact haddr
    | some s => simp [hc s hu, hat, haddr]
  refine ⟨htext 47 (fun s hs => not_mem_of_encoded (hinfo s hs) 47) ?_ (by decide),
    htext 63 (fun s hs => not_mem_of_encoded (hinfo s hs) 63) ?_ (by decide), ?_⟩
  · exact haddress 47 (not_mem_of_isHost hhost 47) (by decide) (by decide)
  · exact haddress 63 (not_mem_of_isHost hhost 63) (by decide) (by decide)
  · exact haddress 64 (not_mem_of_isHost hhost 64) (by decide) (by decide)

theorem splitAuthority_complete {a : Authority} (h : a.WellFormed) :
    splitAuthority a.text = a := by
  obtain ⟨-, -, hat⟩ := not_mem_text h
  have haddress := splitAddress_complete h
  unfold splitAuthority Authority.text
  rcases a with ⟨_ | s, host, port⟩
  · have hcut := cut_of_not_mem hat none
    rw [prefixed, List.append_nil] at hcut
    dsimp only
    rw [hcut, haddress]
  · have hcut := cut_of_not_mem (not_mem_of_encoded (h.1 s rfl) 64)
      (some (Authority.mk (some s) host port).address)
    rw [prefixed] at hcut
    dsimp only
    rw [hcut]
    show Authority.mk (some s) (splitAddress _).1 (splitAddress _).2 = _
    rw [haddress]

/-- A path behind an authority is what its first slash leads in. -/
theorem prefixed_of_isPath {s : Bytes} (h : isPath true s = true) : ∃ o, s = prefixed 47 o := by
  cases s with
  | nil => exact ⟨none, rfl⟩
  | cons c s =>
    have hc : c = 47 := by simpa [isPath] using (Bool.and_eq_true_iff.mp h).2
    exact ⟨some s, by rw [hc]; rfl⟩

theorem splitHier_complete {authority : Option Authority} {path : Bytes}
    (ha : ∀ a ∈ authority, a.WellFormed) (hpath : isPath authority.isSome path = true) :
    splitHier (hier authority path) = (authority, path) := by
  cases authority with
  | none =>
    have htwo : path.take 2 ≠ [47, 47] := by simpa [isPath] using (Bool.and_eq_true_iff.mp hpath).2
    unfold splitHier hier
    split
    · rename_i s hs
      dsimp only at hs
      rw [hs] at htwo
      exact absurd rfl htwo
    · rfl
  | some a =>
    obtain ⟨o, rfl⟩ := prefixed_of_isPath hpath
    obtain ⟨hslash, -, -⟩ := not_mem_text (ha a rfl)
    show (some (splitAuthority (cut 47 (a.text ++ prefixed 47 o)).1),
      prefixed 47 (cut 47 (a.text ++ prefixed 47 o)).2) = _
    rw [cut_of_not_mem hslash, splitAuthority_complete (ha a rfl)]

theorem not_mem_hier {authority : Option Authority} {path : Bytes}
    (ha : ∀ a ∈ authority, a.WellFormed) (hpath : isPath authority.isSome path = true) :
    (63 : UInt8) ∉ hier authority path := by
  have hmark : (63 : UInt8) ∉ path := not_mem_of_encoded (Bool.and_eq_true_iff.mp hpath).1 63
  cases authority with
  | none => exact hmark
  | some a =>
    obtain ⟨-, hmark', -⟩ := not_mem_text (ha a rfl)
    simp [hier, hmark, hmark']

theorem not_mem_scheme {s : Bytes} (h : isScheme s = true) : (58 : UInt8) ∉ s := by
  cases s with
  | nil => exact List.not_mem_nil
  | cons c s =>
    obtain ⟨hc, hs⟩ := Bool.and_eq_true_iff.mp h
    refine List.not_mem_cons_of_ne_of_not_mem ?_ (not_mem_of_all hs 58)
    rintro rfl
    exact absurd hc (by decide)

/-- Well-formed parts are what their text is cut into. -/
theorem split_complete {p : Parts} (h : p.WellFormed) : split p.text = some p := by
  obtain ⟨hscheme, ha, hpath, -⟩ := h
  have hcut := cut_of_not_mem (not_mem_scheme hscheme)
    (some (hier p.authority p.path ++ prefixed 63 p.query))
  rw [prefixed] at hcut
  unfold split Parts.text
  rw [hcut]
  dsimp only
  rw [cut_of_not_mem (not_mem_hier ha hpath), splitHier_complete ha hpath]

end Uri

/-! ## URIs -/

/-- An absolute URI. -/
structure Uri extends Uri.Parts where
  wf : toParts.WellFormed
  deriving DecidableEq, Repr

namespace Uri

def parse (s : Bytes) : Option Uri :=
  match split s with
  | none => none
  | some p => if h : p.WellFormed then some ⟨p, h⟩ else none

/-- **The parser reads a URI off its text and off nothing else.** -/
theorem parse_eq_some {s : Bytes} {u : Uri} : parse s = some u ↔ u.text = s := by
  unfold parse
  constructor
  · intro h
    split at h
    · cases h
    · rename_i p hp
      split at h
      · obtain rfl := Option.some.inj h
        exact split_sound hp
      · cases h
  · rintro rfl
    rw [split_complete u.wf]
    exact dif_pos u.wf

end Uri

end ProxyPP.Lib
