import ProxyPP.Http.RemoteInfo
import ProxyPP.Lib.Uri

/-!
# ProxyPP.Http.AbsoluteForm — targets in absolute form

What `ParseHttpRemoteInfo` is for: the remote of an `http` URI with a host (`Resolves`).  It misses
the URIs whose scheme is not spelled `http`, and those with neither a path nor a query; it is right
on every other target (`parseHttpRemoteInfo_resolves_iff`).
-/

namespace ProxyPP.Http

open ProxyPP ProxyPP.Lib

/-! ## What a target stands for -/

def hostOf (u : Uri) : Bytes := u.authority.elim [] Uri.Authority.host

/-- The port, empty when there is none. -/
def portOf (u : Uri) : Bytes := (u.authority.bind Uri.Authority.port).getD []

/-- The scheme is `http` in upper or lower case, and the host is not empty. -/
def IsHttpUri (u : Uri) : Prop := toLower u.scheme = ascii "http" ∧ hostOf u ≠ []

instance (u : Uri) : Decidable (IsHttpUri u) := inferInstanceAs (Decidable (_ ∧ _))

/-- The target in origin form. -/
def originForm (u : Uri) : Bytes :=
  (if u.path = [] then ascii "/" else u.path) ++ prefixed 63 u.query

/-- The remote of a URI and the target for it. -/
def Points (u : Uri) (info : RemoteInfo) : Prop :=
  info.host = hostOf u ∧ info.port = (if portOf u = [] then ascii "80" else portOf u) ∧
    info.forwardTarget = originForm u

/-- `ParseHttpRemoteInfo` finds the remote of every `http` URI, and none for another target. -/
def Resolves (U : Urls) (header : RequestHeader) : Prop :=
  (∀ u : Uri, u.text = header.target → IsHttpUri u →
    ∃ info, parseHttpRemoteInfo U header = some info ∧ Points u info) ∧
  ((∀ u : Uri, u.text = header.target → ¬ IsHttpUri u) → parseHttpRemoteInfo U header = none)

/-! ## What `parse_absolute_uri` promises -/

/-- The parts of a URI as `boost::urls` names them. -/
def found (u : Uri) : AbsoluteUri where
  scheme := u.scheme
  host := hostOf u
  port := portOf u
  encodedTarget := u.target
  encodedPath := u.path
  hasQuery := u.query.isSome
  encodedQuery := u.query.getD []

/-- `parse_absolute_uri` succeeds exactly on absolute URIs. -/
def Urls.ReadsUris (U : Urls) : Prop :=
  ∀ target r, U.parseAbsoluteUri target = some r ↔ ∃ u : Uri, u.text = target ∧ found u = r

/-- Parsers that do. -/
def Urls.ofGrammar : Urls where
  parseAbsoluteUri target := (Uri.parse target).map found
  parseAuthority _ := none

theorem readsUris_ofGrammar : Urls.ofGrammar.ReadsUris := by
  intro target r
  show (Uri.parse target).map found = some r ↔ _
  simp only [Option.map_eq_some_iff, Uri.parse_eq_some]

/-! ## What `ParseHttpRemoteInfo` does -/

/-- The scheme is not spelled in lower case, or there is nothing behind the authority. -/
def Missed (u : Uri) : Prop := u.scheme ≠ ascii "http" ∨ u.path = [] ∧ u.query = none

theorem target_eq_nil {u : Uri} : u.target = [] ↔ u.path = [] ∧ u.query = none := by
  rw [Uri.Parts.target, List.append_eq_nil_iff]
  cases u.query with
  | none => simp [prefixed]
  | some q => simp [prefixed]

section Parse

variable {U : Urls} (hU : U.ReadsUris) {header : RequestHeader} {u : Uri}

include hU

theorem parseHttpRemoteInfo_of_text (h : u.text = header.target) : parseHttpRemoteInfo U header =
    if u.scheme ≠ ascii "http" then none
    else if u.target = [] then none
    else if hostOf u = [] then none
    else some ⟨u.scheme, hostOf u, if portOf u = [] then ascii "80" else portOf u,
      originForm u⟩ := by
  have hparse : U.parseAbsoluteUri header.target = some (found u) := (hU _ _).mpr ⟨u, h, rfl⟩
  have horigin : originForm u = if u.query.isSome then
      (if u.path = [] then ascii "/" else u.path) ++ ascii "?" ++ u.query.getD []
      else (if u.path = [] then ascii "/" else u.path) := by
    unfold originForm
    cases u.query with
    | none => exact List.append_nil _
    | some q =>
      rw [List.append_assoc]
      rfl
  rw [parseHttpRemoteInfo, hparse, horigin]
  rfl

/-- No target that is not an absolute URI gets through. -/
theorem parseHttpRemoteInfo_of_no_uri (h : ∀ u : Uri, u.text ≠ header.target) :
    parseHttpRemoteInfo U header = none := by
  unfold parseHttpRemoteInfo
  cases hparse : U.parseAbsoluteUri header.target with
  | none => rfl
  | some r =>
    obtain ⟨u, hu, -⟩ := (hU _ _).mp hparse
    exact absurd hu (h u)

theorem parseHttpRemoteInfo_of_missed (h : u.text = header.target) (hmissed : Missed u) :
    parseHttpRemoteInfo U header = none := by
  rw [parseHttpRemoteInfo_of_text hU h]
  rcases hmissed with hscheme | hbare
  · exact if_pos hscheme
  · by_cases hscheme : u.scheme ≠ ascii "http"
    · exact if_pos hscheme
    · rw [if_neg hscheme, if_pos (target_eq_nil.mpr hbare)]

/-- Only an `http` URI gets through. -/
theorem isHttpUri_of_parseHttpRemoteInfo (h : u.text = header.target) {info : RemoteInfo}
    (hinfo : parseHttpRemoteInfo U header = some info) : IsHttpUri u ∧ Points u info := by
  rw [parseHttpRemoteInfo_of_text hU h] at hinfo
  split at hinfo
  · cases hinfo
  rename_i hscheme
  split at hinfo
  · cases hinfo
  split at hinfo
  · cases hinfo
  rename_i hhost
  obtain rfl := Option.some.inj hinfo
  refine ⟨⟨?_, hhost⟩, rfl, rfl, rfl⟩
  rw [not_not.mp hscheme]
  rfl

theorem parseHttpRemoteInfo_of_isHttpUri (h : u.text = header.target) (hhttp : IsHttpUri u)
    (hmissed : ¬ Missed u) : ∃ info, parseHttpRemoteInfo U header = some info := by
  obtain ⟨hscheme, hbare⟩ := not_or.mp hmissed
  rw [parseHttpRemoteInfo_of_text hU h, if_neg hscheme, if_neg (mt target_eq_nil.mp hbare),
    if_neg hhttp.2]
  exact ⟨_, rfl⟩

end Parse

/-- **Targets in absolute form.**  `ParseHttpRemoteInfo` is right on a target exactly if the target
is not an `http` URI with a scheme in upper case or with neither a path nor a query. -/
theorem parseHttpRemoteInfo_resolves_iff (U : Urls) (hU : U.ReadsUris) (header : RequestHeader) :
    Resolves U header ↔ ¬ ∃ u : Uri, u.text = header.target ∧ IsHttpUri u ∧ Missed u := by
  constructor
  · rintro ⟨hresolves, -⟩ ⟨u, hu, hhttp, hmissed⟩
    obtain ⟨info, hinfo, -⟩ := hresolves u hu hhttp
    rw [parseHttpRemoteInfo_of_missed hU hu hmissed] at hinfo
    cases hinfo
  · intro h
    refine ⟨fun u hu hhttp => ?_, fun hno => ?_⟩
    · obtain ⟨info, hinfo⟩ :=
        parseHttpRemoteInfo_of_isHttpUri hU hu hhttp fun hmissed => h ⟨u, hu, hhttp, hmissed⟩
      exact ⟨info, hinfo, (isHttpUri_of_parseHttpRemoteInfo hU hu hinfo).2⟩
    · by_cases huri : ∃ u : Uri, u.text = header.target
      · obtain ⟨u, hu⟩ := huri
        refine Option.eq_none_iff_forall_not_mem.mpr fun info hinfo => ?_
        exact hno u hu (isHttpUri_of_parseHttpRemoteInfo hU hu hinfo).1
      · exact parseHttpRemoteInfo_of_no_uri hU fun u hu => huri ⟨u, hu⟩

/-- A `GET` request for a target. -/
def getTarget (target : Bytes) : RequestHeader := ⟨ascii "GET", 11, target, []⟩

theorem resolves_emptyQuery : Resolves Urls.ofGrammar (getTarget (ascii "http://a:/?")) := by
  refine (parseHttpRemoteInfo_resolves_iff _ readsUris_ofGrammar _).mpr ?_
  rintro ⟨u, hu, -, hmissed⟩
  have hparts : (Uri.parse (ascii "http://a:/?")).map Uri.toParts
      = some ⟨ascii "http", some ⟨none, ascii "a", some []⟩, ascii "/", some []⟩ := by
    decide +kernel
  have hparse : Uri.parse (ascii "http://a:/?") = some u := Uri.parse_eq_some.mpr hu
  rw [hparse] at hparts
  unfold Missed at hmissed
  rw [Option.some.inj hparts] at hmissed
  exact absurd hmissed (by decide)

/-- A URI that is an authority only. -/
theorem bare_uri_unresolved : ¬ ∀ header, Resolves Urls.ofGrammar header := by
  intro h
  have hparse : ((Uri.parse (ascii "http://a")).map fun u => decide (IsHttpUri u)) = some true := by
    decide +kernel
  obtain ⟨u, hu, hhttp⟩ := Option.map_eq_some_iff.mp hparse
  obtain ⟨info, hinfo, -⟩ :=
    (h (getTarget (ascii "http://a"))).1 u (Uri.parse_eq_some.mp hu) (of_decide_eq_true hhttp)
  have hnone : parseHttpRemoteInfo Urls.ofGrammar (getTarget (ascii "http://a")) = none := by
    decide +kernel
  rw [hnone] at hinfo
  cases hinfo

end ProxyPP.Http
