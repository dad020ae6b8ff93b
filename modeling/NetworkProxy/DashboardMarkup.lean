import NetworkProxy.Doubles
import NetworkProxy.HtmlTokens
import NetworkProxy.LogForging

/-!
# The markup of the dashboard

The listeners of the page put hosts, methods and actions into templates that become `innerHTML`.

* `log_markup_iff`, `hosts_markup_iff`: when the strings of a template stay texts.
* `dashboard_markup_iff`: the same for what the runs of the handler log and record.
-/

namespace NetworkProxy
namespace Proxy

open Py Http JsonText HtmlTokens EventStream LogStream

/-! ## The snapshot -/

/-- `record_host`. -/
def recordHost (counters : OrderedDict Text ℕ) (host : Text) : OrderedDict Text ℕ :=
  if host = [] then counters else counters.set host ((counters.get? host).getD 0 + 1)

/-- `get_top_hosts`: by their counts, the first ones first among equals. -/
def getTopHosts (n : ℕ) (counters : OrderedDict Text ℕ) : List (Text × ℕ) :=
  (counters.items.mergeSort fun a b => decide (b.2 ≤ a.2)).take n

/-- A pair of `top_hosts`. -/
def topHostJson (h : Text × ℕ) : Json Number := .array [.string h.1, .number (.int h.2)]

/-- `_build_snapshot`, with the other parts of the state. -/
def buildSnapshot (metrics cache rateLimiter : Json Number) (counters : OrderedDict Text ℕ) :
    Json Number :=
  .object [(txt "metrics", metrics), (txt "cache", cache), (txt "rate_limiter", rateLimiter),
    (txt "top_hosts", .array ((getTopHosts 10 counters).map topHostJson))]

/-! ## Values of the page -/

/-- A member of an object. -/
def member (name : String) : Json Number → Option (Json Number)
  | .object members => OrderedDict.lastValue (txt name) members
  | _ => none

/-- The exponent behind an `e`, or none. -/
def exponentOf : Text → ℤ
  | 'e' :: '-' :: digits => -(Nat.ofDigitChars 10 digits 0 : ℕ)
  | 'e' :: _ :: digits => (Nat.ofDigitChars 10 digits 0 : ℕ)
  | _ => 0

/-- The digits of a float, with no zeros at either end, and the place of the point: the float is
`0.digits` times ten to this power. -/
def significand (s : Text) : Text × ℤ :=
  let whole := s.takeWhile Char.isDigit
  let rest := s.dropWhile Char.isDigit
  let (fraction, rest) := match rest with
    | '.' :: behind => (behind.takeWhile Char.isDigit, behind.dropWhile Char.isDigit)
    | _ => ([], rest)
  let zeros := ((whole ++ fraction).takeWhile (· == '0')).length
  (((whole ++ fraction).drop zeros).rdropWhile (· == '0'),
    whole.length + exponentOf rest - zeros)

/-- `Number.prototype.toString` of a float, without its sign. -/
def showUnsigned (s : Text) : Text :=
  let (digits, point) := significand s
  if digits = [] then ['0']
  else if digits.length ≤ point ∧ point ≤ 21 then
    digits ++ List.replicate (point - digits.length).toNat '0'
  else if 0 < point ∧ point ≤ 21 then
    digits.take point.toNat ++ '.' :: digits.drop point.toNat
  else if -6 < point ∧ point ≤ 0 then
    txt "0." ++ List.replicate (-point).toNat '0' ++ digits
  else
    digits.take 1 ++ (if digits.length = 1 then [] else '.' :: digits.drop 1) ++
      'e' :: (if point < 1 then '-' else '+') :: showInt (point - 1).natAbs

def showFloat (x : FloatText) : Text :=
  match x.text with
  | '-' :: s => '-' :: showUnsigned s
  | s => showUnsigned s

example : showFloat ⟨txt "1e-05", rfl, rfl⟩ = txt "0.00001" ∧
    showFloat ⟨txt "-2.5e-07", rfl, rfl⟩ = txt "-2.5e-7" ∧
    showFloat ⟨txt "1.25e+16", rfl, rfl⟩ = txt "12500000000000000" ∧
    showFloat ⟨txt "0.25", rfl, rfl⟩ = txt "0.25" := by
  decide +kernel

/-- A number as a template shows it. -/
def showNumber : Number → Text
  | .int n => showInt n
  | .tenths n => if n % 10 = 0 then showInt (n / 10) else showTenths n
  | .float x => showFloat x

/-- `value || ''` in a template, where no value is an array or an object. -/
def orEmpty : Option (Json Number) → Text
  | some (.string s) => s
  | some (.number (.int n)) => if n = 0 then [] else showNumber (.int n)
  | some (.number (.tenths n)) => if n = 0 then [] else showNumber (.tenths n)
  | some (.number (.float x)) => showFloat x
  | _ => []

/-! ## The listener of log entries -/

/-- The strings of the template. -/
structure Shown where
  time : Text
  method : Text
  target : Text
  action : Text
  latency : Text

/-- `target`: the host, with its port unless that is a default one. -/
def shownTarget (host : Text) : Option (Json Number) → Text
  | some (.number (.int port)) =>
      if port ≠ 0 ∧ port ≠ 80 ∧ port ≠ 443 then host ++ ':' :: showInt port else host
  | _ => host

/-- The constants of the listener.  `localeTime` is `toLocaleTimeString` of a timestamp. -/
def shown (localeTime : Text → Text) (entry : Json Number) : Shown where
  time :=
    let timestamp := orEmpty (member "timestamp" entry)
    if timestamp = [] then [] else localeTime timestamp
  method := orEmpty (member "method" entry)
  target := shownTarget (orEmpty (member "host" entry)) (member "port" entry) ++
    orEmpty (member "path" entry)
  action :=
    let action := orEmpty (member "action" entry)
    if action = [] then txt "PROXY" else action
  latency :=
    let latency := orEmpty (member "latency_ms" entry)
    if latency = [] then [] else latency ++ txt "ms"

/-- `div.innerHTML`. -/
def logHtml (s : Shown) : Text :=
  txt "\n      <span class=\"time\">" ++ s.time ++
  txt "</span>\n      <span class=\"method\">" ++ s.method ++
  txt "</span>\n      <span class=\"host\">" ++ s.target ++
  txt "</span>\n      <span class=\"action action-" ++ s.action ++ txt "\">" ++ s.action ++
  txt "</span>\n      <span class=\"latency\">" ++ s.latency ++
  txt "</span>\n    "

/-! ## The listener of snapshots -/

/-- `[host, count]`. -/
def readHost : Json Number → Option (Text × ℤ)
  | .array [.string host, .number (.int count)] => some (host, count)
  | _ => none

/-- `(count / maxCount * 100).toFixed(0)`: two operations on doubles, then the nearest integer with
ties up. -/
def percent (count maxCount : ℤ) : Text :=
  if maxCount = 0 then txt "NaN"
  else
    let quotient := Doubles.toDouble count.toNat maxCount.toNat
    let product := Doubles.toDouble (quotient.1 * 100) quotient.2
    showInt ((2 * product.1 + product.2) / (2 * product.2) : ℕ)

example : percent 29 200 = txt "14" ∧ percent 1 8 = txt "13" := by decide +kernel

/-- A row of the table. -/
def topHostRow (maxCount : ℤ) (i : ℕ) (host : Text) (count : ℤ) : Text :=
  txt "<tr>\n          <td class=\"rank\">" ++ showInt (i + 1) ++
  txt "</td>\n          <td>" ++ host ++
  txt "<div class=\"host-bar\" style=\"width:" ++ percent count maxCount ++
  txt "%\"></div></td>\n          <td style=\"text-align:right;" ++
  txt "font-variant-numeric:tabular-nums;color:var(--text-secondary)\">" ++ showInt count ++
  txt "</td>\n        </tr>"

/-- The rows from the `i`-th on, joined. -/
def topHostRows (maxCount : ℤ) : ℕ → List (Text × ℤ) → Text
  | _, [] => []
  | i, (host, count) :: hosts =>
      topHostRow maxCount i host count ++ topHostRows maxCount (i + 1) hosts

/-- `tbody.innerHTML`, which is left alone when there are no hosts. -/
def topHostsHtml : List (Text × ℤ) → Option Text
  | [] => none
  | (host, maxCount) :: hosts => some (topHostRows maxCount 0 (((host, maxCount) :: hosts).take 10))

/-- `d.top_hosts || []`. -/
def topHosts (d : Json Number) : List (Text × ℤ) :=
  match member "top_hosts" d with
  | some (.array items) => items.filterMap readHost
  | _ => []

/-- What a message makes the page assign to `innerHTML`. -/
def assigned (localeTime : Text → Text) (m : Message) : Option Text :=
  (loads numberFormat m.data).bind fun d =>
    if m.type = txt "metrics" then topHostsHtml (topHosts d)
    else if m.type = txt "log" then some (logHtml (shown localeTime d))
    else none

/-! ## The tokens as they are meant -/

def chars (s : Text) : List Token := s.map .char

def openTag (name : String) (attributes : List (Text × Text)) : Token :=
  .startTag (txt name) attributes false

def closeTag (name : String) : Token := .endTag (txt name)

/-- A span of the entry. -/
def spanTokens (class_ content : Text) : List Token :=
  chars (txt "\n      ") ++ openTag "span" [(txt "class", class_)] :: chars content ++
    [closeTag "span"]

/-- A log entry: five spans. -/
def logTokens (s : Shown) : List Token :=
  spanTokens (txt "time") s.time ++ spanTokens (txt "method") s.method ++
    spanTokens (txt "host") s.target ++ spanTokens (txt "action action-" ++ s.action) s.action ++
    spanTokens (txt "latency") s.latency ++ chars (txt "\n    ")

/-- A row: the rank, the host with its bar, and the count. -/
def rowTokens (maxCount : ℤ) (i : ℕ) (host : Text) (count : ℤ) : List Token :=
  openTag "tr" [] :: chars (txt "\n          ") ++
  openTag "td" [(txt "class", txt "rank")] :: chars (showInt (i + 1)) ++
  closeTag "td" :: chars (txt "\n          ") ++
  openTag "td" [] :: chars host ++
  [openTag "div" [(txt "class", txt "host-bar"),
      (txt "style", txt "width:" ++ percent count maxCount ++ txt "%")],
    closeTag "div", closeTag "td"] ++ chars (txt "\n          ") ++
  openTag "td" [(txt "style", txt "text-align:right;" ++
    txt "font-variant-numeric:tabular-nums;color:var(--text-secondary)")] ::
    chars (showInt count) ++
  closeTag "td" :: chars (txt "\n        ") ++ [closeTag "tr"]

/-- The rows from the `i`-th on. -/
def rowsTokens (maxCount : ℤ) : ℕ → List (Text × ℤ) → List Token
  | _, [] => []
  | i, (host, count) :: hosts =>
      rowTokens maxCount i host count ++ rowsTokens maxCount (i + 1) hosts

/-- The tags among the tokens, each with the names of its attributes. -/
def tagsOf (ts : List Token) : List (Text × List Text) :=
  ts.filterMap fun
    | .startTag name attributes _ => some (name, attributes.map Prod.fst)
    | .endTag name => some ('/' :: name, [])
    | _ => none

/-- The tags of a log entry. -/
def logTags : List (Text × List Text) :=
  (List.replicate 5 [(txt "span", [txt "class"]), (txt "/span", [])]).flatten

/-- The tags of a row. -/
def rowTags : List (Text × List Text) :=
  [(txt "tr", []), (txt "td", [txt "class"]), (txt "/td", []), (txt "td", []),
    (txt "div", [txt "class", txt "style"]), (txt "/div", []), (txt "/td", []),
    (txt "td", [txt "style"]), (txt "/td", []), (txt "/tr", [])]

/-! ## The templates as documents -/

/-- The end tag of an element of the templates. -/
def endTag (name : Text) (hhead : name.head?.any Char.isAlpha = true)
    (hname : name.all isNameChar = true) : Tag :=
  ⟨true, name, [], hhead, hname, nofun⟩

def spanTag (class_ : Text) (h : '"' ∉ class_) : Tag where
  isEnd := false
  name := txt "span"
  attributes := [(txt "class", class_)]
  head_alpha := rfl
  name_plain := by decide
  attributes_plain := by
    have hclass : txt "class" ≠ [] ∧ (txt "class").all isNameChar = true := by decide
    exact List.forall_mem_singleton.mpr ⟨hclass.1, hclass.2, h⟩

def spanPieces (class_ content : Text) (h : '"' ∉ class_) : List (Text × Tag) :=
  [(txt "\n      ", spanTag class_ h), (content, endTag (txt "span") rfl (by decide))]

theorem not_mem_actionClass {action : Text} (h : '"' ∉ action) :
    '"' ∉ txt "action action-" ++ action := by
  have hconst : '"' ∉ txt "action action-" := by decide
  exact fun hmem => (List.mem_append.mp hmem).elim hconst h

def logPieces (s : Shown) (h : '"' ∉ s.action) : List (Text × Tag) :=
  spanPieces (txt "time") s.time (by decide) ++ spanPieces (txt "method") s.method (by decide) ++
    spanPieces (txt "host") s.target (by decide) ++
    spanPieces (txt "action action-" ++ s.action) s.action (not_mem_actionClass h) ++
    spanPieces (txt "latency") s.latency (by decide)

/-- The text of a span. -/
theorem flatMap_spanPieces (class_ content : Text) (h : '"' ∉ class_) :
    (spanPieces class_ content h).flatMap (fun piece => piece.1 ++ piece.2.text) =
      txt "\n      <span class=\"" ++ (class_ ++ (txt "\">" ++ (content ++ txt "</span>"))) := by
  simp only [spanPieces, spanTag, endTag, Tag.text, Tag.attributeText, List.flatMap_cons,
    List.flatMap_nil, List.append_assoc, List.append_nil]
  rfl

theorem logHtml_eq_document (s : Shown) (h : '"' ∉ s.action) :
    logHtml s = document (logPieces s h) (txt "\n    ") := by
  have hfirst : txt "\n      <span class=\"time\">" =
      txt "\n      <span class=\"" ++ (txt "time" ++ txt "\">") := rfl
  have hmethod : txt "</span>\n      <span class=\"method\">" =
      txt "</span>" ++ (txt "\n      <span class=\"" ++ (txt "method" ++ txt "\">")) := rfl
  have hhost : txt "</span>\n      <span class=\"host\">" =
      txt "</span>" ++ (txt "\n      <span class=\"" ++ (txt "host" ++ txt "\">")) := rfl
  have haction : txt "</span>\n      <span class=\"action action-" =
      txt "</span>" ++ (txt "\n      <span class=\"" ++ txt "action action-") := rfl
  have hlatency : txt "</span>\n      <span class=\"latency\">" =
      txt "</span>" ++ (txt "\n      <span class=\"" ++ (txt "latency" ++ txt "\">")) := rfl
  have hlast : txt "</span>\n    " = txt "</span>" ++ txt "\n    " := rfl
  simp only [document, logPieces, List.flatMap_append, flatMap_spanPieces, logHtml, hfirst,
    hmethod, hhost, haction, hlatency, hlast, List.append_assoc]

theorem documentTokens_logPieces (s : Shown) (h : '"' ∉ s.action) :
    documentTokens (logPieces s h) (txt "\n    ") = logTokens s := by
  simp only [documentTokens, logPieces, spanPieces, logTokens, spanTokens, List.flatMap_append,
    List.flatMap_cons, List.flatMap_nil, List.append_assoc, List.append_nil]
  rfl

theorem not_mem_percent (count maxCount : ℤ) : '"' ∉ percent count maxCount := by
  rw [percent]
  split
  · decide
  · exact not_mem_showInt (by decide) rfl _

/-- The bar below a host. -/
def barTag (count maxCount : ℤ) : Tag where
  isEnd := false
  name := txt "div"
  attributes := [(txt "class", txt "host-bar"),
    (txt "style", txt "width:" ++ percent count maxCount ++ txt "%")]
  head_alpha := rfl
  name_plain := by decide
  attributes_plain := by
    have hclass : txt "class" ≠ [] ∧ (txt "class").all isNameChar = true ∧
        '"' ∉ txt "host-bar" := by decide
    have hstyle : txt "style" ≠ [] ∧ (txt "style").all isNameChar = true := by decide
    have hwidth : '"' ∉ txt "width:" := by decide
    have hunit : '"' ∉ txt "%" := by decide
    have hvalue : '"' ∉ txt "width:" ++ percent count maxCount ++ txt "%" := by
      simp only [List.mem_append, not_or]
      exact ⟨⟨hwidth, not_mem_percent count maxCount⟩, hunit⟩
    exact List.forall_mem_cons.mpr ⟨hclass, List.forall_mem_singleton.mpr
      ⟨hstyle.1, hstyle.2, hvalue⟩⟩

def rowTag : Tag := ⟨false, txt "tr", [], rfl, by decide, nofun⟩

def cellTag (attributes : List (Text × Text)) (h : ∀ a, a ∈ attributes →
    a.1 ≠ [] ∧ a.1.all isNameChar = true ∧ '"' ∉ a.2) : Tag :=
  ⟨false, txt "td", attributes, rfl, by decide, h⟩

def cellEnd : Tag := endTag (txt "td") rfl (by decide)

/-- The style of the last cell. -/
def countStyle : Text :=
  txt "text-align:right;font-variant-numeric:tabular-nums;color:var(--text-secondary)"

def rowPieces (maxCount : ℤ) (i : ℕ) (host : Text) (count : ℤ) : List (Text × Tag) :=
  [([], rowTag),
    (txt "\n          ", cellTag [(txt "class", txt "rank")] (by decide)),
    (showInt (i + 1), cellEnd),
    (txt "\n          ", cellTag [] nofun),
    (host, barTag count maxCount),
    ([], endTag (txt "div") rfl (by decide)),
    ([], cellEnd),
    (txt "\n          ", cellTag [(txt "style", countStyle)] (by decide)),
    (showInt count, cellEnd),
    (txt "\n        ", endTag (txt "tr") rfl (by decide))]

theorem flatMap_rowPieces (maxCount : ℤ) (i : ℕ) (host : Text) (count : ℤ) :
    (rowPieces maxCount i host count).flatMap (fun piece => piece.1 ++ piece.2.text) =
      topHostRow maxCount i host count := by
  have hbar : (barTag count maxCount).text =
      txt "<div class=\"host-bar\" style=\"width:" ++
        (percent count maxCount ++ txt "%\">") := by
    simp only [barTag, Tag.text, Tag.attributeText, List.flatMap_cons, List.flatMap_nil,
      List.cons_append, List.append_assoc, List.append_nil]
    rfl
  have hstart : txt "<tr>\n          <td class=\"rank\">" = rowTag.text ++ (txt "\n          " ++
      (cellTag [(txt "class", txt "rank")] (by decide)).text) := rfl
  have hhost : txt "</td>\n          <td>" = cellEnd.text ++ (txt "\n          " ++
      (cellTag [] nofun).text) := rfl
  have hcount : txt "%\"></div></td>\n          <td style=\"text-align:right;" ++
      txt "font-variant-numeric:tabular-nums;color:var(--text-secondary)\">" =
        txt "%\">" ++ ((endTag (txt "div") rfl (by decide)).text ++ (cellEnd.text ++
          (txt "\n          " ++ (cellTag [(txt "style", countStyle)] (by decide)).text))) := rfl
  have hend : txt "</td>\n        </tr>" = cellEnd.text ++ (txt "\n        " ++
      (endTag (txt "tr") rfl (by decide)).text) := rfl
  have hrow : topHostRow maxCount i host count =
      txt "<tr>\n          <td class=\"rank\">" ++ (showInt (i + 1) ++
        (txt "</td>\n          <td>" ++ (host ++
          (txt "<div class=\"host-bar\" style=\"width:" ++ (percent count maxCount ++
            ((txt "%\"></div></td>\n          <td style=\"text-align:right;" ++
              txt "font-variant-numeric:tabular-nums;color:var(--text-secondary)\">") ++
                (showInt count ++ txt "</td>\n        </tr>"))))))) := by
    simp only [topHostRow, List.append_assoc]
  rw [hrow, hstart, hhost, hcount, hend]
  simp only [rowPieces, hbar, List.flatMap_cons, List.flatMap_nil, List.nil_append,
    List.append_assoc, List.append_nil]

def rowsPieces (maxCount : ℤ) : ℕ → List (Text × ℤ) → List (Text × Tag)
  | _, [] => []
  | i, (host, count) :: hosts =>
      rowPieces maxCount i host count ++ rowsPieces maxCount (i + 1) hosts

theorem documentTokens_append (pieces pieces' : List (Text × Tag)) :
    documentTokens (pieces ++ pieces') [] =
      documentTokens pieces [] ++ documentTokens pieces' [] := by
  simp [documentTokens]

theorem documentTokens_rowPieces (maxCount : ℤ) (i : ℕ) (host : Text) (count : ℤ) :
    documentTokens (rowPieces maxCount i host count) [] = rowTokens maxCount i host count := by
  simp only [documentTokens, rowPieces, rowTokens, List.flatMap_cons, List.flatMap_nil,
    List.append_assoc, List.append_nil, List.cons_append]
  rfl

theorem topHostRows_eq_document (maxCount : ℤ) (i : ℕ) (hosts : List (Text × ℤ)) :
    topHostRows maxCount i hosts = document (rowsPieces maxCount i hosts) [] := by
  induction hosts generalizing i with
  | nil => rfl
  | cons h hosts ih =>
      rw [topHostRows, ih, ← flatMap_rowPieces]
      simp only [document, rowsPieces, List.flatMap_append, List.append_assoc]

theorem documentTokens_rowsPieces (maxCount : ℤ) (i : ℕ) (hosts : List (Text × ℤ)) :
    documentTokens (rowsPieces maxCount i hosts) [] = rowsTokens maxCount i hosts := by
  induction hosts generalizing i with
  | nil => rfl
  | cons h hosts ih =>
      rw [rowsPieces, documentTokens_append, documentTokens_rowPieces, ih, rowsTokens]

/-! ## The tags that are meant -/

theorem tagsOf_append (ts ts' : List Token) : tagsOf (ts ++ ts') = tagsOf ts ++ tagsOf ts' :=
  List.filterMap_append

theorem tagsOf_chars (s : Text) (ts : List Token) : tagsOf (chars s ++ ts) = tagsOf ts := by
  induction s with
  | nil => rfl
  | cons c s ih => exact ih

theorem tagsOf_openTag (name : String) (attributes : List (Text × Text)) (ts : List Token) :
    tagsOf (openTag name attributes :: ts) =
      (txt name, attributes.map Prod.fst) :: tagsOf ts := rfl

theorem tagsOf_closeTag (name : String) (ts : List Token) :
    tagsOf (closeTag name :: ts) = ('/' :: txt name, []) :: tagsOf ts := rfl

theorem tagsOf_spanTokens (class_ content : Text) :
    tagsOf (spanTokens class_ content) = [(txt "span", [txt "class"]), (txt "/span", [])] := by
  simp only [spanTokens, List.append_assoc, List.cons_append, tagsOf_chars, tagsOf_openTag,
    tagsOf_closeTag]
  rfl

/-- The strings do not bear on the tags that are meant. -/
theorem tagsOf_logTokens (s : Shown) : tagsOf (logTokens s) = logTags := by
  have hlast : tagsOf (chars (txt "\n    ")) = [] := rfl
  simp only [logTokens, tagsOf_append, tagsOf_spanTokens, hlast]
  rfl

theorem tagsOf_rowTokens (maxCount : ℤ) (i : ℕ) (host : Text) (count : ℤ) :
    tagsOf (rowTokens maxCount i host count) = rowTags := by
  simp only [rowTokens, List.append_assoc, List.cons_append, List.nil_append, tagsOf_chars,
    tagsOf_openTag, tagsOf_closeTag]
  rfl

theorem tagsOf_rowsTokens (maxCount : ℤ) (i : ℕ) (hosts : List (Text × ℤ)) :
    tagsOf (rowsTokens maxCount i hosts) = (List.replicate hosts.length rowTags).flatten := by
  induction hosts generalizing i with
  | nil => rfl
  | cons h hosts ih =>
      rw [rowsTokens, tagsOf_append, tagsOf_rowTokens, ih, List.length_cons, List.replicate_succ,
        List.flatten_cons]

/-! ## When the strings are texts -/

theorem inert_showInt (n : ℤ) : Inert (showInt n) :=
  inert_of_not_mem (not_mem_showInt (by decide) rfl n)

theorem inert_rowPieces_iff (maxCount : ℤ) (i : ℕ) (host : Text) (count : ℤ) :
    (∀ piece, piece ∈ rowPieces maxCount i host count → Inert piece.1) ↔ Inert host := by
  have hcell : Inert (txt "\n          ") := inert_of_not_mem (by decide)
  have hrow : Inert (txt "\n        ") := inert_of_not_mem (by decide)
  simp only [rowPieces, List.forall_mem_cons, List.not_mem_nil, false_imp_iff, implies_true,
    hcell, hrow, inert_showInt, inert_nil, true_and, and_true]

theorem inert_rowsPieces_iff (maxCount : ℤ) (i : ℕ) (hosts : List (Text × ℤ)) :
    (∀ piece, piece ∈ rowsPieces maxCount i hosts → Inert piece.1) ↔
      ∀ h, h ∈ hosts → Inert h.1 := by
  induction hosts generalizing i with
  | nil => exact iff_of_true nofun nofun
  | cons h hosts ih =>
      rw [rowsPieces, List.forall_mem_append, inert_rowPieces_iff, ih, List.forall_mem_cons]

/-- The table.  The rows are read as they are meant exactly if no host opens markup. -/
theorem hosts_markup_iff (maxCount : ℤ) (hosts : List (Text × ℤ)) :
    tokens (topHostRows maxCount 0 hosts) = rowsTokens maxCount 0 hosts ↔
      ∀ h, h ∈ hosts → Inert h.1 := by
  rw [topHostRows_eq_document, ← documentTokens_rowsPieces, tokens_document_iff _ inert_nil,
    inert_rowsPieces_iff]

/-- What the page itself puts into the template of an entry. -/
structure Shown.Plain (s : Shown) : Prop where
  time : '<' ∉ s.time
  action : '<' ∉ s.action ∧ '"' ∉ s.action
  latency : '<' ∉ s.latency

/-- The entry.  It is read as it is meant exactly if neither method nor target opens markup. -/
theorem log_markup_iff {s : Shown} (hs : s.Plain) :
    tokens (logHtml s) = logTokens s ↔ Inert s.method ∧ Inert s.target := by
  have hindent : Inert (txt "\n      ") := inert_of_not_mem (by decide)
  have hlast : Inert (txt "\n    ") := inert_of_not_mem (by decide)
  have htime := inert_of_not_mem hs.time
  have haction := inert_of_not_mem hs.action.1
  have hlatency := inert_of_not_mem hs.latency
  rw [logHtml_eq_document s hs.action.2, ← documentTokens_logPieces s hs.action.2,
    tokens_document_iff _ hlast]
  simp only [logPieces, spanPieces, List.forall_mem_append, List.forall_mem_cons,
    List.not_mem_nil, false_imp_iff, implies_true, hindent, htime, haction, hlatency, true_and,
    and_true]

/-! ## What the page makes of a message -/

section Values

variable {V : Type}

theorem lastValue_filterMap_of_not_mem {name : Text} {l : List (Text × Option V)}
    (h : name ∉ l.map Prod.fst) :
    OrderedDict.lastValue name (l.filterMap fun item => item.2.map fun v => (item.1, v)) =
      none := by
  cases hlast : OrderedDict.lastValue name
      (l.filterMap fun item => item.2.map fun v => (item.1, v)) with
  | none => rfl
  | some v =>
      obtain ⟨item, hitem, hvalue⟩ := List.mem_filterMap.mp (OrderedDict.mem_of_lastValue hlast)
      obtain ⟨v', -, heq⟩ := Option.map_eq_some_iff.mp hvalue
      exact absurd (List.mem_map.mpr ⟨item, hitem, (Prod.mk.inj heq).1⟩) h

/-- An optional item among items with other keys. -/
theorem lastValue_filterMap {name : Text} {v : Option V} {l : List (Text × Option V)}
    (hnodup : (l.map Prod.fst).Nodup) (h : (name, v) ∈ l) :
    OrderedDict.lastValue name (l.filterMap fun item => item.2.map fun v => (item.1, v)) = v := by
  induction l with
  | nil => cases h
  | cons item l ih =>
      obtain ⟨hkey, hnodup⟩ := List.nodup_cons.mp hnodup
      rcases List.mem_cons.mp h with rfl | h
      · cases v with
        | none =>
            rw [List.filterMap_cons_none rfl]
            exact lastValue_filterMap_of_not_mem hkey
        | some v =>
            refine OrderedDict.lastValue_append_cons (fun p hp => ?_) [] v
            obtain ⟨item, hitem, hvalue⟩ := List.mem_filterMap.mp hp
            obtain ⟨v', -, rfl⟩ := Option.map_eq_some_iff.mp hvalue
            exact fun hname => hkey (List.mem_map.mpr ⟨item, hitem, hname⟩)
      · have hne : item.1 ≠ name := fun hname => hkey (List.mem_map.mpr ⟨_, h, hname.symm⟩)
        rw [← ih hnodup h]
        cases hvalue : item.2 with
        | none => rw [List.filterMap_cons_none (by rw [hvalue]; rfl)]
        | some v' =>
            rw [List.filterMap_cons_some (by rw [hvalue]; rfl), OrderedDict.lastValue,
              List.filter_cons_of_neg (by simpa using hne)]
            rfl

end Values

theorem member_toDict {e : LogEntry} {name : String} {v : Option (Json Number)}
    (h : (txt name, v) ∈ e.fieldItems) : member name e.toDict = v := by
  have hkeys : e.fieldItems.map Prod.fst =
      ["event", "message", "timestamp", "level", "request_id", "client_ip", "method", "host",
        "port", "path", "action", "status_code", "latency_ms", "bytes_transferred"].map txt := rfl
  have hnodup : (e.fieldItems.map Prod.fst).Nodup := by
    rw [hkeys]
    decide
  exact lastValue_filterMap hnodup h

theorem orEmpty_string (s : Option Text) : orEmpty (s.map .string) = s.getD [] := by
  cases s <;> rfl

theorem assigned_log (localeTime : Text → Text) (e : LogEntry) :
    assigned localeTime (sseMessage (.log e)) = some (logHtml (shown localeTime e.toDict)) := by
  have hread : loads numberFormat (sseMessage (.log e)).data = some e.toDict :=
    loads_dumps numberFormat e.toDict
  rw [assigned, hread]
  rfl

theorem assigned_metrics (localeTime : Text → Text) (snapshot : Json Number) :
    assigned localeTime (sseMessage (.metrics snapshot)) = topHostsHtml (topHosts snapshot) := by
  have hread : loads numberFormat (sseMessage (.metrics snapshot)).data = some snapshot :=
    loads_dumps numberFormat snapshot
  rw [assigned, hread]
  rfl

theorem topHosts_buildSnapshot (metrics cache rateLimiter : Json Number)
    (counters : OrderedDict Text ℕ) :
    topHosts (buildSnapshot metrics cache rateLimiter counters) =
      (getTopHosts 10 counters).map fun h => (h.1, (h.2 : ℤ)) := by
  have hmember : member "top_hosts" (buildSnapshot metrics cache rateLimiter counters) =
      some (.array ((getTopHosts 10 counters).map topHostJson)) := rfl
  rw [topHosts, hmember]
  dsimp only
  rw [List.filterMap_map]
  exact congrFun List.filterMap_eq_map' _

/-! ## The entries of the handler -/

section Entries

variable {localeTime : Text → Text} {e : LogEntry}

theorem shown_method : (shown localeTime e.toDict).method = e.method.getD [] := by
  have hmember : member "method" e.toDict = e.method.map .string :=
    member_toDict (by simp [LogEntry.fieldItems])
  rw [shown, hmember]
  exact orEmpty_string _

/-- The target opens markup only if the host does. -/
theorem inert_shown_target (hpath : e.path = none) :
    Inert (shown localeTime e.toDict).target ↔ Inert (e.host.getD []) := by
  have hhost : member "host" e.toDict = e.host.map .string :=
    member_toDict (by simp [LogEntry.fieldItems])
  have hport : member "port" e.toDict = e.port.map fun n => .number (.int n) :=
    member_toDict (by simp [LogEntry.fieldItems])
  have hnone : member "path" e.toDict = e.path.map .string :=
    member_toDict (by simp [LogEntry.fieldItems])
  have htarget : (shown localeTime e.toDict).target =
      shownTarget (e.host.getD []) (e.port.map fun n => .number (.int n)) := by
    rw [shown, hhost, hport, hnone, hpath, orEmpty_string]
    exact List.append_nil _
  rw [htarget]
  cases e.port with
  | none => exact Iff.rfl
  | some port =>
      rw [Option.map_some, shownTarget]
      split
      · have hdigits : Inert (':' :: showInt port) := by
          refine inert_of_not_mem fun hmem => ?_
          rcases List.mem_cons.mp hmem with hcolon | hmem
          · exact absurd hcolon (by decide)
          · exact not_mem_showInt (by decide) rfl port hmem
        have hcolon : ∀ d, (':' :: showInt port).head? = some d → opensMarkup d = false := by
          rintro d ⟨⟩
          rfl
        rw [inert_append hcolon]
        exact and_iff_left hdigits
      · exact Iff.rfl

theorem not_mem_showNumber_tenths (n : ℤ) : '<' ∉ showNumber (.tenths n) := by
  rw [showNumber]
  split
  · exact not_mem_showInt (by decide) rfl _
  · intro hmem
    cases ShortNumber.isNumberChar_showTenths hmem

/-- What the page puts into the template itself is plain. -/
theorem plain_shown (htime : ∀ s, '<' ∉ localeTime s)
    (haction : ∃ a, a ∈ logActions ∧ e.action = some (txt a)) :
    (shown localeTime e.toDict).Plain where
  time := by
    rw [shown]
    dsimp only
    split
    · exact List.not_mem_nil
    · exact htime _
  action := by
    obtain ⟨a, ha, hname⟩ := haction
    have hmember : member "action" e.toDict = e.action.map .string :=
      member_toDict (by simp [LogEntry.fieldItems])
    have hall : ∀ a, a ∈ logActions → txt a ≠ [] ∧ '<' ∉ txt a ∧ '"' ∉ txt a := by decide
    obtain ⟨hne, hplain⟩ := hall a ha
    have hshown : (shown localeTime e.toDict).action = txt a := by
      rw [shown, hmember, orEmpty_string, hname]
      exact if_neg hne
    rw [hshown]
    exact hplain
  latency := by
    have hmember : member "latency_ms" e.toDict =
        e.latencyTenths.map fun n => .number (.tenths n) :=
      member_toDict (by simp [LogEntry.fieldItems])
    have hvalue : '<' ∉ orEmpty (e.latencyTenths.map fun n => .number (.tenths n)) := by
      cases e.latencyTenths with
      | none => exact List.not_mem_nil
      | some n =>
          rw [Option.map_some, orEmpty]
          split
          · exact List.not_mem_nil
          · exact not_mem_showNumber_tenths n
    have hunit : '<' ∉ txt "ms" := by decide
    rw [shown, hmember]
    dsimp only
    split
    · exact List.not_mem_nil
    · exact fun hmem => (List.mem_append.mp hmem).elim hvalue hunit

end Entries

/-! ## What the runs of the handler show -/

/-- A run of `handle_client`. -/
def ClientRun (cfg : HandlerConfig) (addr : ClientAddr) (t : Trace) : Prop :=
  ∃ rounds o, Exec (handleClient cfg addr rounds) t o

/-- The hosts that a run records. -/
def recordedHosts (t : Trace) : List Text :=
  t.filterMap fun
    | .called (.recordHost host) _ => some host
    | _ => none

/-- The counters after some hosts were recorded. -/
def countHosts (hosts : List Text) : OrderedDict Text ℕ :=
  hosts.foldl recordHost OrderedDict.empty

/-- What is assigned to `innerHTML` has the tags of the template, and the strings are texts. -/
def TextOnly (html : Option Text) (tags : List (Text × List Text)) (meant : List Token) : Prop :=
  ∀ text, html = some text → tagsOf (tokens text) = tags ∧ tokens text = meant

theorem textOnly_some_iff {text : Text} {tags : List (Text × List Text)} {meant : List Token}
    (htags : tagsOf meant = tags) :
    TextOnly (some text) tags meant ↔ tokens text = meant := by
  constructor
  · exact fun h => (h text rfl).2
  · rintro h _ ⟨⟩
    rw [h]
    exact ⟨htags, rfl⟩

theorem mem_of_mem_keys_countHosts {hosts : List Text} {host : Text}
    (h : host ∈ (countHosts hosts).keys) : host ∈ hosts := by
  induction hosts using List.reverseRecOn with
  | nil => cases h
  | append_singleton hosts last ih =>
      rw [countHosts, List.foldl_append, List.foldl_cons, List.foldl_nil, recordHost] at h
      rw [List.mem_append]
      split at h
      · exact Or.inl (ih h)
      · rw [OrderedDict.keys_set] at h
        split at h
        · exact Or.inl (ih h)
        · exact (List.mem_append.mp h).imp ih id

theorem mem_of_mem_getTopHosts {n : ℕ} {hosts : List Text} {h : Text × ℕ}
    (hmem : h ∈ getTopHosts n (countHosts hosts)) : h.1 ∈ hosts := by
  have hitem : h ∈ (countHosts hosts).items := List.mem_mergeSort.mp (List.mem_of_mem_take hmem)
  exact mem_of_mem_keys_countHosts (List.mem_map_of_mem hitem)

/-- A recorded host is the host of an accepted request. -/
theorem accepted_of_recorded {cfg : HandlerConfig} {addr : ClientAddr} {t : Trace}
    (hrun : ClientRun cfg addr t) {host : Text} (h : host ∈ recordedHosts t) :
    ∃ raw parsed p, Accepted cfg addr t.reverse raw parsed p ∧ host = p.host := by
  obtain ⟨rounds, o, hexec⟩ := hrun
  obtain ⟨event, hevent, hvalue⟩ := List.mem_filterMap.mp h
  have hop : event.op? = some (.recordHost host) := by
    split at hvalue
    · obtain rfl := Option.some.inj hvalue
      rfl
    · cases hvalue
  rcases reported_of_exec hexec hevent hop with hnone | hreported
  · exact hnone.elim
  · exact hreported

/-- The tokens of the table as they are meant; the first host has the highest count. -/
def hostsTokens : List (Text × ℤ) → List Token
  | [] => []
  | (host, maxCount) :: hosts => rowsTokens maxCount 0 ((host, maxCount) :: hosts)

/-- A log entry reaches the page as five spans with texts. -/
def EntryTextOnly (localeTime : Text → Text) (e : LogEntry) : Prop :=
  TextOnly (assigned localeTime (sseMessage (.log e))) logTags
    (logTokens (shown localeTime e.toDict))

/-- The top hosts reach the page as one row each, with the hosts as texts. -/
def HostsTextOnly (localeTime : Text → Text) (metrics cache rateLimiter : Json Number)
    (counters : OrderedDict Text ℕ) : Prop :=
  TextOnly
    (assigned localeTime (sseMessage (.metrics (buildSnapshot metrics cache rateLimiter counters))))
    (List.replicate (getTopHosts 10 counters).length rowTags).flatten
    (hostsTokens ((getTopHosts 10 counters).map fun h => (h.1, (h.2 : ℤ))))

theorem entryTextOnly_iff {localeTime : Text → Text} (htime : ∀ s, '<' ∉ localeTime s)
    {e : LogEntry} (hpath : e.path = none)
    (haction : ∃ a, a ∈ logActions ∧ e.action = some (txt a)) :
    EntryTextOnly localeTime e ↔
      (∀ s, e.method = some s → Inert s) ∧ ∀ s, e.host = some s → Inert s := by
  have hsome : ∀ s : Option Text, Inert (s.getD []) ↔ ∀ text, s = some text → Inert text := by
    intro s
    cases s with
    | none => exact iff_of_true inert_nil nofun
    | some text => simp
  rw [EntryTextOnly, assigned_log, textOnly_some_iff (tagsOf_logTokens _),
    log_markup_iff (plain_shown htime haction), shown_method, inert_shown_target hpath, hsome,
    hsome]

theorem hostsTextOnly_iff (localeTime : Text → Text) (metrics cache rateLimiter : Json Number)
    (counters : OrderedDict Text ℕ) :
    HostsTextOnly localeTime metrics cache rateLimiter counters ↔
      ∀ h, h ∈ getTopHosts 10 counters → Inert h.1 := by
  have hlength : (getTopHosts 10 counters).length ≤ 10 := List.length_take_le _ _
  rw [HostsTextOnly, assigned_metrics, topHosts_buildSnapshot]
  generalize getTopHosts 10 counters = hosts at hlength
  cases hosts with
  | nil => exact iff_of_true nofun nofun
  | cons h hosts =>
      have htake : List.take 10 ((h :: hosts).map fun h => (h.1, (h.2 : ℤ))) =
          (h :: hosts).map fun h => (h.1, (h.2 : ℤ)) :=
        List.take_of_length_le (by rw [List.length_map]; exact hlength)
      rw [List.map_cons] at htake
      rw [List.map_cons, topHostsHtml, hostsTokens, htake, textOnly_some_iff, hosts_markup_iff]
      · rw [List.forall_mem_cons, List.forall_mem_cons, List.forall_mem_map]
      · rw [tagsOf_rowsTokens, List.length_cons, List.length_map, List.length_cons]

/--
**The markup of the dashboard.**  Whatever the runs of the handler log and record: an entry or the
table of hosts has the tags of its template, with the strings as texts, exactly if none of the
methods and hosts it shows holds a `<` in front of a letter, `/`, `!` or `?`.  The hosts of the
table are those of accepted requests.
-/
theorem dashboard_markup_iff {localeTime : Text → Text} (htime : ∀ s, '<' ∉ localeTime s)
    {cfg : HandlerConfig} {runs : List (ClientAddr × Trace)}
    (hruns : ∀ run, run ∈ runs → ClientRun cfg run.1 run.2) {recorded : List Text}
    (hrecorded : recorded.Perm (runs.flatMap fun run => recordedHosts run.2)) :
    (∀ run message fields, run ∈ runs → .called (.logEvent message fields) () ∈ run.2 →
      ∀ timestamp, EntryTextOnly localeTime (logEntry timestamp message fields) ↔
        (∀ s, fields.method = some s → Inert s) ∧ ∀ s, fields.host = some s → Inert s) ∧
    (∀ metrics cache rateLimiter,
      HostsTextOnly localeTime metrics cache rateLimiter (countHosts recorded) ↔
        ∀ h, h ∈ getTopHosts 10 (countHosts recorded) → Inert h.1) ∧
    ∀ h, h ∈ getTopHosts 10 (countHosts recorded) → ∃ run, run ∈ runs ∧ ∃ raw parsed p,
      Accepted cfg run.1 run.2.reverse raw parsed p ∧ h.1 = p.host := by
  refine ⟨fun run message fields hrun hlog timestamp => ?_, fun metrics cache rateLimiter =>
    hostsTextOnly_iff localeTime metrics cache rateLimiter _, fun h hmem => ?_⟩
  · obtain ⟨rounds, o, hexec⟩ := hruns run hrun
    refine entryTextOnly_iff htime rfl ?_
    rcases reported_of_exec hexec hlog rfl with herror | ⟨raw, parsed, p, -, hentry⟩
    · obtain rfl : fields = errorFields := herror
      exact ⟨"ERROR", by decide, rfl⟩
    · have hentry : EntryOf run.1 p fields := hentry
      exact hentry.action
  · obtain ⟨run, hrun, hhost⟩ :=
      List.mem_flatMap.mp (hrecorded.mem_iff.mp (mem_of_mem_getTopHosts hmem))
    exact ⟨run, hrun, accepted_of_recorded (hruns run hrun) hhost⟩

/-- A time of day. -/
def noon (_ : Text) : Text := txt "12:00:00"

theorem dashboard_markup_iff_limited :
    (∃ message, .called (.logEvent message hostFields) () ∈ limitedTrace hostRequest ∧
      ∀ timestamp, EntryTextOnly noon (logEntry timestamp message hostFields)) ∧
      ∀ metrics cache rateLimiter,
        HostsTextOnly noon metrics cache rateLimiter (countHosts [txt "a"]) := by
  have hexec := exec_run (limiting hostRequest)
    (handleClient oneUser ⟨txt "10.0.0.1", 5000⟩ 1)
  have hruns : ∀ run, run ∈ [(⟨txt "10.0.0.1", 5000⟩, limitedTrace hostRequest)] →
      ClientRun oneUser run.1 run.2 :=
    List.forall_mem_singleton.mpr ⟨1, _, hexec⟩
  have hrecorded : [txt "a"].Perm
      ([((⟨txt "10.0.0.1", 5000⟩ : ClientAddr), limitedTrace hostRequest)].flatMap
        fun run => recordedHosts run.2) := List.Perm.of_eq rfl
  have htime : ∀ s, '<' ∉ noon s := fun s => by
    rw [noon]
    decide
  obtain ⟨hentries, hhosts, -⟩ := dashboard_markup_iff htime hruns hrecorded
  have hlog : ∃ message, .called (.logEvent message hostFields) () ∈ limitedTrace hostRequest :=
    ⟨_, List.mem_of_getElem? (i := 7) rfl⟩
  obtain ⟨message, hlog⟩ := hlog
  refine ⟨⟨message, hlog, fun timestamp => ?_⟩, fun metrics cache rateLimiter => ?_⟩
  · refine (hentries _ message hostFields List.mem_cons_self hlog timestamp).mpr ⟨?_, ?_⟩
    · rintro _ ⟨⟩
      exact inert_of_not_mem (by decide)
    · rintro _ ⟨⟩
      exact inert_of_not_mem (by decide)
  · refine (hhosts metrics cache rateLimiter).mpr fun h hmem => ?_
    rw [List.mem_singleton.mp (mem_of_mem_getTopHosts hmem)]
    exact inert_of_not_mem (by decide)

/-- A request whose `Host` field is an image with a handler. -/
def scriptRequest : Bytes :=
  ascii "GET / HTTP/1.1\r\nHost: <img src=x onerror=alert(1)>\r\n\r\n"

/-- The image among the tokens. -/
def scriptTag : Token :=
  .startTag (txt "img") [(txt "src", txt "x"), (txt "onerror", txt "alert(1)")] false

/-- Nobody has to authenticate for it: the request that the rate limiter refuses puts the image into
the feed of entries and into the table of hosts. -/
theorem image_becomes_markup :
    (∃ o, Exec (handleClient oneUser ⟨txt "10.0.0.1", 5000⟩ 1) (limitedTrace scriptRequest) o) ∧
      (∃ message fields, .called (.logEvent message fields) () ∈ limitedTrace scriptRequest ∧
        ∀ timestamp, ¬ EntryTextOnly noon (logEntry timestamp message fields)) ∧
      (∀ metrics cache rateLimiter, ¬ HostsTextOnly noon metrics cache rateLimiter
        (countHosts (recordedHosts (limitedTrace scriptRequest)))) ∧
      scriptTag ∈ tokens (topHostRows 1 0 [(txt "<img src=x onerror=alert(1)>", 1)]) := by
  have hopens : ¬ Inert (txt "<img src=x onerror=alert(1)>") :=
    fun h => h 'i' rfl ⟨[], txt "mg src=x onerror=alert(1)>", rfl⟩
  have htime : ∀ s, '<' ∉ noon s := fun s => by
    rw [noon]
    decide
  have hrecorded : recordedHosts (limitedTrace scriptRequest) =
      [txt "<img src=x onerror=alert(1)>"] := rfl
  refine ⟨⟨_, exec_run (limiting scriptRequest) _⟩, ⟨_, _, List.mem_of_getElem? (i := 7) rfl,
    fun timestamp hentry => ?_⟩, fun metrics cache rateLimiter hhosts => ?_, by decide +kernel⟩
  · have hinert := (entryTextOnly_iff htime rfl ⟨"RATE_LIMITED", by decide, rfl⟩).mp hentry
    exact hopens (hinert.2 _ rfl)
  · rw [hrecorded] at hhosts
    have hcounters : getTopHosts 10 (countHosts [txt "<img src=x onerror=alert(1)>"]) =
        [(txt "<img src=x onerror=alert(1)>", 1)] := by
      rw [getTopHosts]
      exact congrArg (List.take 10) (List.mergeSort_singleton _)
    have hinert := (hostsTextOnly_iff noon metrics cache rateLimiter _).mp hhosts
    rw [hcounters] at hinert
    exact hopens (hinert _ List.mem_cons_self)

end Proxy
end NetworkProxy
