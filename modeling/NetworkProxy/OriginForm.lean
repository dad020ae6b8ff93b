import NetworkProxy.Chaining
import NetworkProxy.Forwarder
import NetworkProxy.RequestHead

/-!
# From the absolute URI to the origin form

The target of a request is taken apart by `urlparse` and put together again from the path
and the query.

`resource_kept_iff`: the outbound request and the cache key name the resource of the client
exactly when nothing stood in the parts that are left out.
-/

namespace NetworkProxy
namespace Http

open Py

/-- The origin form of what stands behind the authority. -/
def originForm (rest : Text) : Text :=
  if rest.head? = some '/' then rest else '/' :: rest

/-- `path or "/"`. -/
def rootedPath (path : Text) : Text := if path = [] then txt "/" else path

/-- What `parse_http_request` makes of it. -/
def rebuiltPath (rest : Text) : Text :=
  let path := rootedPath (dropParams (pathQuery rest).1)
  if (pathQuery rest).2 = [] then path else path ++ '?' :: (pathQuery rest).2

/-- No semicolon stands in the last segment of the path, and no question mark without a
query. -/
def ResourceKept (rest : Text) : Prop :=
  ';' ∉ afterLast '/' (partition '?' rest).1 ∧ ('?' ∈ rest → (partition '?' rest).2 ≠ [])

section Rebuilt

theorem partition_of_not_mem {c : Char} {s : Text} (h : c ∉ s) : partition c s = (s, []) := by
  rw [partition, splitFirst_eq_none.mpr h]
  rfl

theorem originForm_append {path tail : Text} (hpath : Rooted path)
    (htail : tail = [] ∨ tail.head? = some '?') :
    originForm (path ++ tail) = rootedPath path ++ tail := by
  cases path with
  | nil =>
      have hhead : tail.head? ≠ some '/' := by
        rintro hslash
        rcases htail with rfl | hquery
        · cases hslash
        · rw [hquery] at hslash
          exact absurd hslash (by decide)
      rw [List.nil_append, originForm, if_neg hhead]
      rfl
  | cons c path =>
      obtain rfl := hpath c rfl
      rfl

theorem rootedPath_dropParams {path : Text} (hpath : Rooted path) :
    rootedPath (dropParams path) = rootedPath path ↔ ';' ∉ afterLast '/' path := by
  rw [← dropParams_eq_self_iff]
  cases path with
  | nil => exact ⟨fun _ => rfl, fun _ => rfl⟩
  | cons c path =>
      obtain rfl := hpath c rfl
      have hne : dropParams ('/' :: path) ≠ [] := by
        rw [dropParams]
        cases hs : splitLast '/' ('/' :: path) with
        | none => exact absurd List.mem_cons_self (not_mem_of_splitLast_eq_none hs)
        | some parts => exact List.append_ne_nil_of_right_ne_nil _ (List.cons_ne_nil _ _)
      rw [rootedPath, rootedPath, if_neg hne, if_neg (List.cons_ne_nil _ _)]

/-- Without a question mark, only parameters are left out. -/
theorem rebuiltPath_eq_iff_of_path {path : Text} (hfragment : '#' ∉ path) (hquery : '?' ∉ path)
    (hpath : Rooted path) : rebuiltPath path = originForm path ↔ ResourceKept path := by
  have hpq : pathQuery path = (path, []) := by
    rw [pathQuery, partition_of_not_mem hfragment, partition_of_not_mem hquery]
  have horigin := originForm_append hpath (Or.inl rfl)
  rw [List.append_nil, List.append_nil] at horigin
  rw [rebuiltPath, ResourceKept, hpq, partition_of_not_mem hquery, horigin]
  dsimp only
  rw [if_pos rfl, rootedPath_dropParams hpath]
  exact (and_iff_left fun hmem => absurd hmem hquery).symm

/-- With a question mark, the query must not be empty. -/
theorem rebuiltPath_eq_iff_of_query {path query : Text} (hfragment : '#' ∉ path ++ '?' :: query)
    (hquery : '?' ∉ path) (hpath : Rooted path) :
    rebuiltPath (path ++ '?' :: query) = originForm (path ++ '?' :: query) ↔
      ResourceKept (path ++ '?' :: query) := by
  have hpart : partition '?' (path ++ '?' :: query) = (path, query) := by
    rw [partition, splitFirst_append hquery]
    rfl
  have hpq : pathQuery (path ++ '?' :: query) = (path, query) := by
    rw [pathQuery, partition_of_not_mem hfragment, hpart]
  rw [rebuiltPath, ResourceKept, hpq, hpart, originForm_append hpath (Or.inr rfl)]
  dsimp only
  by_cases hempty : query = []
  · rw [if_pos hempty]
    constructor
    · intro heq
      have hmem : '?' ∈ rootedPath (dropParams path) := by
        rw [heq]
        exact List.mem_append_right _ List.mem_cons_self
      rw [rootedPath] at hmem
      split at hmem
      · exact absurd hmem (by decide)
      · exact absurd (mem_dropParams hmem) hquery
    · exact fun h => absurd hempty (h.2 (List.mem_append_right _ List.mem_cons_self))
  · rw [if_neg hempty, List.append_cancel_right_eq, rootedPath_dropParams hpath]
    exact (and_iff_left fun _ => hempty).symm

/-- What is rebuilt is the origin form exactly if nothing is left out. -/
theorem rebuiltPath_eq_iff {rest : Text} (hfragment : '#' ∉ rest)
    (hrest : rest = [] ∨ rest.head? = some '/' ∨ rest.head? = some '?') :
    rebuiltPath rest = originForm rest ↔ ResourceKept rest := by
  have hrooted : ∀ {path tail : Text}, rest = path ++ tail → '?' ∉ path → Rooted path := by
    rintro path tail hsplit hquery c hc
    have hhead : rest.head? = some c := by
      rw [hsplit, List.head?_append, hc]
      rfl
    rcases hrest with hnil | hslash | hquestion
    · rw [hnil] at hhead
      cases hhead
    · exact (Option.some.inj (hslash.symm.trans hhead)).symm
    · obtain rfl := Option.some.inj (hquestion.symm.trans hhead)
      exact absurd (List.mem_of_mem_head? hc) hquery
  cases hs : splitFirst '?' rest with
  | none =>
      have hquery := splitFirst_eq_none.mp hs
      exact rebuiltPath_eq_iff_of_path hfragment hquery
        (hrooted (List.append_nil rest).symm hquery)
  | some parts =>
      obtain ⟨path, query⟩ := parts
      obtain ⟨hsplit, hquery⟩ := splitFirst_eq_some hs
      have hpath := hrooted hsplit hquery
      subst hsplit
      exact rebuiltPath_eq_iff_of_query hfragment hquery hpath

end Rebuilt

section Kept

variable {rt : PyRuntime} {p : ParsedRequest}

theorem splitNetloc_append {authority rest : Text}
    (hauthority : ∀ c, c ∈ authority → isNetlocEnd c = false)
    (hrest : rest = [] ∨ rest.head? = some '/' ∨ rest.head? = some '?') :
    splitNetloc (authority ++ rest) = (authority, rest) := by
  have hall : ∀ c, c ∈ authority → (fun c => !isNetlocEnd c) c = true :=
    fun c hc => by simp [hauthority c hc]
  have hstop : rest.takeWhile (fun c => !isNetlocEnd c) = [] ∧
      rest.dropWhile (fun c => !isNetlocEnd c) = rest := by
    cases rest with
    | nil => exact ⟨rfl, rfl⟩
    | cons c rest =>
        have hend : isNetlocEnd c = true := by
          rcases hrest with hnil | hslash | hquestion
          · cases hnil
          · cases hslash
            decide
          · cases hquestion
            decide
        exact ⟨List.takeWhile_cons_of_neg (by simp [hend]),
          List.dropWhile_cons_of_neg (by simp [hend])⟩
  rw [splitNetloc, List.takeWhile_append_of_pos hall, List.dropWhile_append_of_pos hall, hstop.1,
    hstop.2, List.append_nil]

/-- The path of an absolute URI. -/
theorem path_of_absoluteDestination {scheme authority rest : Text} {host : Option Text} {port : ℤ}
    {path : Option Text} (hscheme : scheme = txt "http" ∨ scheme = txt "https")
    (hblank : ∀ c, c ∈ authority ++ rest → isSpace c = false)
    (hauthority : ∀ c, c ∈ authority → isNetlocEnd c = false)
    (hrest : rest = [] ∨ rest.head? = some '/' ∨ rest.head? = some '?')
    (h : absoluteDestination rt (scheme ++ txt "://" ++ (authority ++ rest)) =
      .ok (host, port, path)) : path = some (rebuiltPath rest) := by
  obtain ⟨url, hurl, -, -, rfl⟩ := absoluteDestination_eq_ok h
  obtain ⟨rfl, -⟩ := (urlparse_http_eq_ok_iff hscheme hblank).mp hurl
  rw [httpUrl, splitNetloc_append hauthority hrest]
  rfl

/-- The target of the outbound request is the path. -/
theorem requestTarget_outbound (hp : p.Clean) (hip : ∀ s, p.clientIp = some s → OneLine s)
    (hf : p.Forwardable rt) : requestTarget (buildOutboundRequest p) = p.path := by
  obtain ⟨path, hpath, hok⟩ := hf.path
  rw [requestTarget, requestHead_eq (breakOn_outbound hp hip) (lines_outbound hp hip)
    (splitWs_requestLine hf hpath hok), hpath]
  rfl

/-- The path that is read from an absolute URI with the scheme `http`. -/
theorem path_of_parse {requestId : Text} {data : Bytes} {authority rest : Text}
    (h : parseHttpRequest rt requestId data = .ok (some p)) (hmethod : p.method ≠ txt "CONNECT")
    (htarget : requestTarget data = some (txt "http://" ++ authority ++ rest))
    (hauthority : ∀ c, c ∈ authority → isNetlocEnd c = false)
    (hrest : rest = [] ∨ rest.head? = some '/' ∨ rest.head? = some '?') :
    p.path = some (rebuiltPath rest) := by
  obtain ⟨⟨method, target, headerLines⟩, hhead, rfl, -, hblank, -, hdest, -⟩ :=
    requestHead_of_parse h
  rw [requestTarget, hhead, Option.map_some, Option.some.injEq] at htarget
  dsimp only at htarget
  have hform : target = txt "http" ++ txt "://" ++ (authority ++ rest) := by
    rw [htarget, List.append_assoc]
    rfl
  subst hform
  have habsolute : AbsoluteTarget (txt "http" ++ txt "://" ++ (authority ++ rest)) :=
    Or.inl (List.isPrefixOf_iff_prefix.mpr (List.prefix_append _ _))
  exact path_of_absoluteDestination (Or.inl rfl)
    (fun c hc => hblank c (List.mem_append_right _ hc)) hauthority hrest
    (absoluteDestination_of_destination hmethod habsolute hdest)

/--
**The resource is kept.**  For an absolute URI `http://` authority `rest`, the outbound request
and the cache key name `rest` in origin form exactly if no semicolon stands in the last segment of
its path and no question mark without a query.
-/
theorem resource_kept_iff (rt : PyRuntime) (requestId : Text) (data : Bytes) (p : ParsedRequest)
    (hparse : parseHttpRequest rt requestId data = .ok (some p))
    (hmethod : p.method ≠ txt "CONNECT") (authority rest : Text)
    (htarget : requestTarget data = some (txt "http://" ++ authority ++ rest))
    (hauthority : ∀ c, c ∈ authority → isNetlocEnd c = false) (hfragment : '#' ∉ rest)
    (hrest : rest = [] ∨ rest.head? = some '/' ∨ rest.head? = some '?') (client : Option IPv4) :
    (requestTarget (buildOutboundRequest { p with clientIp := client.map IPv4.text }) =
          some (originForm rest) ∧
        (Proxy.Forward.cacheKey { p with clientIp := client.map IPv4.text }).path =
          some (originForm rest)) ↔
      ResourceKept rest := by
  have hip := oneLine_clientIp client
  have hforward := (forwardable_of_parse hparse hmethod).withClientIp (client.map IPv4.text)
  have hpath := path_of_parse hparse hmethod htarget hauthority hrest
  have hkey : (Proxy.Forward.cacheKey { p with clientIp := client.map IPv4.text }).path =
      p.path := rfl
  have hout : requestTarget (buildOutboundRequest { p with clientIp := client.map IPv4.text }) =
      p.path :=
    requestTarget_outbound ((clean_of_parse hparse).withClientIp _) hip hforward
  rw [hout, hkey, hpath, Option.some.injEq, and_self_iff]
  exact rebuiltPath_eq_iff hfragment hrest

/-- A target with a query and nothing that is left out. -/
def queryRequest : Bytes := ascii "GET http://h/a/b?x=1 HTTP/1.1\r\n\r\n"

def queryParsed : ParsedRequest where
  method := txt "GET"
  host := txt "h"
  port := 80
  path := some (txt "/a/b?x=1")
  headers := OrderedDict.empty
  contentLength := none
  body := []
  requestId := []
  raw := queryRequest
  clientIp := none

theorem resource_kept_iff_query :
    requestTarget (buildOutboundRequest { queryParsed with clientIp := none }) =
      some (originForm (txt "/a/b?x=1")) := by
  have hkept : ResourceKept (txt "/a/b?x=1") := ⟨by decide, fun _ => by decide⟩
  have hauthority : ∀ c, c ∈ txt "h" → isNetlocEnd c = false := by
    intro c hc
    obtain rfl := List.mem_singleton.mp hc
    rfl
  exact ((resource_kept_iff asciiRuntime [] queryRequest queryParsed rfl (by decide) (txt "h")
    (txt "/a/b?x=1") rfl hauthority (by decide) (Or.inr (Or.inl rfl)) none).mpr hkept).1

/-- A target with a parameter. -/
def paramRequest : Bytes := ascii "GET http://h/cart;id=7 HTTP/1.1\r\n\r\n"

def paramParsed : ParsedRequest where
  method := txt "GET"
  host := txt "h"
  port := 80
  path := some (txt "/cart")
  headers := OrderedDict.empty
  contentLength := none
  body := []
  requestId := []
  raw := paramRequest
  clientIp := none

/-- The parameter is lost, for the origin server and for the cache. -/
theorem parameter_is_lost :
    parseHttpRequest asciiRuntime [] paramRequest = .ok (some paramParsed) ∧
      requestTarget paramRequest = some (txt "http://" ++ txt "h" ++ txt "/cart;id=7") ∧
      requestTarget (buildOutboundRequest paramParsed) = some (txt "/cart") ∧
      (Proxy.Forward.cacheKey paramParsed).path = some (txt "/cart") ∧
      originForm (txt "/cart;id=7") ≠ txt "/cart" :=
  ⟨rfl, rfl, rfl, rfl, by decide⟩

end Kept

end Http
end NetworkProxy
