import NetworkProxy.Outbound

/-!
# The fields of the outbound request

The header fields that a recipient reads from the head of the outbound request.
`fieldValues_outbound`: a name that the builder neither drops nor writes itself has
the value of the client's header dictionary, and no other.
-/

namespace NetworkProxy
namespace Http

open Py

/-! ## Fields of a head -/

/-- An ASCII letter in lower case. -/
def lowerByte (b : UInt8) : UInt8 := if 65 ≤ b.toNat ∧ b.toNat ≤ 90 then b + 32 else b

/-- The name, in lower case, and the value of a header line, freed of optional
blanks. -/
def fieldOfLine (line : Bytes) : Option (Bytes × Bytes) :=
  (splitFirst 58 line).map
    (fun parts => (parts.1.map lowerByte, stripBy (fun b => b == 32 || b == 9) parts.2))

/-- The values of the fields with a given name in a head; the first line is the request
line. -/
def fieldValues (name head : Bytes) : List Bytes :=
  (((splitPair 13 10 head).tail.filterMap fieldOfLine).filter (fun f => f.1 = name)).map Prod.snd

/-- The names the builder drops, replaces or adds. -/
def builderNames : List Text :=
  hopByHopHeaders ++ [txt "host", txt "x-forwarded-for", txt "via"]

/-! ## Fields of the outbound request -/

section Outbound

variable {p : ParsedRequest}

theorem fieldOfLine_headerLine {f : Text × Text} (hname : ':' ∉ f.1) :
    fieldOfLine (encode (headerLine f)) =
      some ((encode f.1).map lowerByte,
        stripBy (fun b => b == 32 || b == 9) (32 :: encode f.2)) := by
  have hcolon : (58 : UInt8) ∉ encode f.1 :=
    fun h => hname (mem_of_asciiByte_mem_encode (a := ':') (by decide) h)
  have hline : encode (headerLine f) = encode f.1 ++ 58 :: 32 :: encode f.2 := by
    have hsep : encode (txt ": ") = [58, 32] := by decide
    rw [headerLine, encode_append, encode_append, hsep, List.append_assoc]
    rfl
  rw [fieldOfLine, hline, splitFirst_append hcolon]
  rfl

/-- A blank or a tab. -/
def isBlank (c : Char) : Bool := c == ' ' || c == '\t'

theorem isBlank_of_mem {b : UInt8} {c : Char} (h : b ∈ String.utf8EncodeChar c) :
    (b == 32 || b == 9) = isBlank c := by
  by_cases hspace : c = ' '
  · subst hspace
    obtain rfl := List.mem_singleton.mp h
    rfl
  · by_cases htab : c = '\t'
    · subst htab
      obtain rfl := List.mem_singleton.mp h
      rfl
    · have hb32 : b ≠ 32 := by
        rintro rfl
        exact hspace (eq_of_asciiByte_mem (a := ' ') (by decide) h).1
      have hb9 : b ≠ 9 := by
        rintro rfl
        exact htab (eq_of_asciiByte_mem (a := '\t') (by decide) h).1
      rw [isBlank, beq_eq_false_iff_ne.mpr hb32, beq_eq_false_iff_ne.mpr hb9,
        beq_eq_false_iff_ne.mpr hspace, beq_eq_false_iff_ne.mpr htab]

/-- Blanks are stripped from a text or from its bytes. -/
theorem stripBy_encode (s : Text) :
    stripBy (fun b => b == 32 || b == 9) (encode s) = encode (stripBy isBlank s) := by
  have hall : ∀ {t : Text}, (∀ c, c ∈ t → isBlank c = true) →
      ∀ b, b ∈ encode t → (b == 32 || b == 9) = true := by
    intro t ht b hb
    obtain ⟨block, hblock, hmem⟩ := List.mem_flatten.mp hb
    obtain ⟨c, hc, rfl⟩ := List.mem_map.mp hblock
    rw [isBlank_of_mem hmem]
    exact ht c hc
  have hends : stripBy (fun b => b == 32 || b == 9) (encode (stripBy isBlank s)) =
      encode (stripBy isBlank s) := by
    refine stripBy_eq_self (fun b hb => ?_) (fun b hb => ?_)
    · obtain ⟨c, hc, hmem⟩ := head?_encode hb
      rw [isBlank_of_mem hmem]
      exact head?_stripBy hc
    · obtain ⟨c, hc, hmem⟩ := getLast?_encode hb
      rw [isBlank_of_mem hmem]
      exact getLast?_stripBy hc
  obtain ⟨pre, post, hs, hpre, hpost⟩ := exists_of_stripBy isBlank s
  have hencode : encode s = encode pre ++ encode (stripBy isBlank s) ++ encode post := by
    rw [← encode_append, ← encode_append, ← hs]
  rw [hencode, stripBy_append (hall hpre) (hall hpost), hends]

theorem isSpace_of_isBlank {c : Char} (h : isBlank c = true) : isSpace c = true := by
  rw [isBlank, Bool.or_eq_true, beq_iff_eq, beq_iff_eq] at h
  rcases h with rfl | rfl <;> decide

/-- Optional blanks around a stored value are only the one the builder adds. -/
theorem stripBy_encode_strip (s : Text) :
    stripBy (fun b => b == 32 || b == 9) (32 :: encode (Py.strip s)) =
      encode (Py.strip s) := by
  have hblank : ∀ {c : Char}, isSpace c = false → isBlank c = false := by
    intro c hc
    by_contra hb
    rw [isSpace_of_isBlank (Bool.not_eq_false _ ▸ hb)] at hc
    cases hc
  have hself : stripBy isBlank (Py.strip s) = Py.strip s :=
    stripBy_eq_self (fun c hc => hblank (head?_stripBy hc)) fun c hc => hblank (getLast?_stripBy hc)
  rw [stripBy_cons_of_pos (by decide), stripBy_encode, hself]

theorem map_lowerByte_encode {k : Text} (h : ∀ c, c ∈ k → ¬ c.isUpper = true) :
    (encode k).map lowerByte = encode k := by
  have hfix : ∀ b, b ∈ encode k → lowerByte b = b := by
    intro b hb
    rw [lowerByte, if_neg]
    rintro ⟨hlo, hhi⟩
    obtain ⟨hc, hbyte⟩ := asciiByte_ofNat b
    rw [← hbyte] at hb
    have hmem := mem_of_asciiByte_mem_encode (by omega) hb
    exact h _ hmem ((isUpper_iff _).mpr (by omega))
  exact (List.map_congr_left hfix).trans (List.map_id _)

theorem map_lowerByte_encode_of_ascii {k : Text} (h : ∀ c, c ∈ k → c.toNat < 128) :
    (encode k).map lowerByte = encode (k.map Char.toLower) := by
  induction k with
  | nil => rfl
  | cons c k ih =>
      have hc := h c List.mem_cons_self
      have hbyte : c.toLower.toNat < 128 ∧ lowerByte (asciiByte c) = asciiByte c.toLower := by
        by_cases hup : c.isUpper = true
        · have hbounds := (isUpper_iff c).mp hup
          have hlower := toNat_toLower c
          rw [if_pos hup] at hlower
          have hadd : (asciiByte c + 32).toNat = c.toNat + 32 := by
            have hoffset : (32 : UInt8).toNat = 32 := rfl
            rw [UInt8.toNat_add, toNat_asciiByte hc, hoffset]
            exact Nat.mod_eq_of_lt (by omega)
          refine ⟨by omega, UInt8.toNat_inj.mp ?_⟩
          rw [lowerByte, if_pos (by rw [toNat_asciiByte hc]; omega), hadd,
            toNat_asciiByte (by omega), hlower]
        · have hbounds := mt (isUpper_iff c).mpr hup
          rw [toLower_eq_self hup, lowerByte, if_neg (by rw [toNat_asciiByte hc]; omega)]
          exact ⟨hc, rfl⟩
      rw [List.map_cons, encode_cons, encode_cons, utf8EncodeChar_ascii hc,
        utf8EncodeChar_ascii hbyte.1, List.singleton_append, List.singleton_append, List.map_cons,
        ih fun d hd => h d (List.mem_cons_of_mem _ hd)]
      exact congrArg (fun b => b :: encode (k.map Char.toLower)) hbyte.2

/-- How a recipient reads an outbound field. -/
def readField (f : Text × Text) : Bytes × Bytes :=
  ((encode f.1).map lowerByte, stripBy (fun b => b == 32 || b == 9) (32 :: encode f.2))

/-- A field of the client is read as it is stored. -/
theorem readField_of_fieldOk {f : Text × Text} (hf : FieldOk f) :
    readField f = (encode f.1, encode f.2) := by
  obtain ⟨s, hs⟩ := hf.value_strip
  rw [readField, map_lowerByte_encode hf.name_lower, hs, stripBy_encode_strip]

/-- The fields of the outbound head, in order. -/
theorem fields_outbound (hp : p.Clean) (hip : ∀ s, p.clientIp = some s → OneLine s) :
    (splitPair 13 10 (joinPair 13 10 (p.outLines.map encode))).tail.filterMap fieldOfLine =
      p.outFields.map readField := by
  rw [splitPair_outbound hp hip, ParsedRequest.outLines, List.map_cons, List.tail_cons,
    List.map_map, List.filterMap_map, ← List.filterMap_eq_map]
  refine List.filterMap_congr fun f hf => ?_
  exact fieldOfLine_headerLine (outFieldOk_of_mem hp hip hf).name_colon

theorem forwardedFor_name {f : Text × Text} (hf : f ∈ p.forwardedFor) :
    f.1 = txt "X-Forwarded-For" := (of_mem_forwardedFor hf).1

/-- Fields under the builder's own names are not read under another one. -/
theorem filter_built_eq_nil {name : Text} (hascii : ∀ c, c ∈ name → c.toNat < 128)
    (hname : name ∉ builderNames) {fs : List (Text × Text)}
    (hfs : ∀ f, f ∈ fs →
      ∃ built, built ∈ builderNames ∧ (encode f.1).map lowerByte = encode built) :
    (fs.map readField).filter (fun f => f.1 = encode name) = [] := by
  rw [List.filter_eq_nil_iff]
  intro g hg
  obtain ⟨f, hf, rfl⟩ := List.mem_map.mp hg
  obtain ⟨built, hbuilt, hlower⟩ := hfs f hf
  intro hread
  have heq : encode built = encode name := hlower.symm.trans (of_decide_eq_true hread)
  exact hname (encode_inj_of_ascii hascii heq ▸ hbuilt)

theorem filter_built_singleton {name : Text} (hascii : ∀ c, c ∈ name → c.toNat < 128)
    (hname : name ∉ builderNames) {f : Text × Text} (built : Text)
    (hbuilt : built ∈ builderNames) (hlower : (encode f.1).map lowerByte = encode built) :
    ([f].map readField).filter (fun f => f.1 = encode name) = [] := by
  refine filter_built_eq_nil hascii hname fun g hg => ⟨built, hbuilt, ?_⟩
  rwa [List.mem_singleton.mp hg]

/-- The builder keeps every field of the client that it does not drop. -/
theorem filter_keptFields (hp : p.Clean) {name : Text}
    (hascii : ∀ c, c ∈ name → c.toNat < 128) (hhop : name ∉ hopByHopHeaders)
    (hhost : name ≠ txt "host") :
    (p.keptFields.map readField).filter (fun f => f.1 = encode name) =
      (p.headers.items.filter (fun f => f.1 = name)).map readField := by
  rw [List.filter_map, ParsedRequest.keptFields, List.filter_filter]
  congr 1
  refine List.filter_congr fun f hf => ?_
  rw [Function.comp_apply, readField_of_fieldOk (hp.fields f hf), Bool.eq_iff_iff]
  simp only [Bool.and_eq_true, decide_eq_true_eq]
  constructor
  · exact fun h => encode_inj_of_ascii hascii h.1
  · intro h
    rw [h]
    exact ⟨rfl, hhop, hhost⟩

/-- The client's field of a name, as it is read. -/
theorem map_readField_items (hp : p.Clean) (name : Text) :
    (p.headers.items.filter (fun f => f.1 = name)).map readField =
      ((p.headers.get? name).map (fun value => (encode name, encode value))).toList := by
  rw [filter_key_eq p.headers.nodup, OrderedDict.get?]
  cases hget : findItem name p.headers.items with
  | none => rfl
  | some value =>
      have hok := hp.fields _ (mem_of_findItem hget)
      simp [readField_of_fieldOk hok]

/-- The values of an end-to-end field. -/
theorem fieldValues_outbound (hp : p.Clean) (hip : ∀ s, p.clientIp = some s → OneLine s)
    {name : Text} (hascii : ∀ c, c ∈ name → c.toNat < 128) (hname : name ∉ builderNames) :
    fieldValues (encode name) (joinPair 13 10 (p.outLines.map encode)) =
      ((p.headers.get? name).map encode).toList := by
  have hhost : ([p.hostField].map readField).filter (fun f => f.1 = encode name) = [] := by
    have hlower : (encode (txt "Host")).map lowerByte = encode (txt "host") := by decide
    exact filter_built_singleton hascii hname (txt "host") (by decide) hlower
  have hconnection : ([(txt "Connection", txt "close")].map readField).filter
      (fun f => f.1 = encode name) = [] :=
    filter_built_singleton hascii hname (txt "connection") (by decide) (by decide)
  have hxff : (p.forwardedFor.map readField).filter (fun f => f.1 = encode name) = [] := by
    refine filter_built_eq_nil hascii hname fun f hf => ⟨txt "x-forwarded-for", by decide, ?_⟩
    rw [forwardedFor_name hf]
    decide
  have hvia : ([(txt "Via", txt "1.1 proxy")].map readField).filter
      (fun f => f.1 = encode name) = [] :=
    filter_built_singleton hascii hname (txt "via") (by decide) (by decide)
  have hhop : name ∉ hopByHopHeaders := fun h => hname (List.mem_append_left _ h)
  have hother : name ≠ txt "host" := by
    rintro rfl
    exact hname (by decide)
  rw [fieldValues, fields_outbound hp hip, ParsedRequest.outFields, List.map_append,
    List.map_append, List.map_append, List.map_append, List.filter_append, List.filter_append,
    List.filter_append, List.filter_append, hhost,
    filter_keptFields hp hascii hhop hother, map_readField_items hp,
    hconnection, hxff, hvia, List.nil_append, List.append_nil, List.append_nil,
    List.append_nil]
  cases p.headers.get? name <;> rfl

theorem ParsedRequest.Clean.withClientIp (h : p.Clean) (clientIp : Option Text) :
    ({ p with clientIp := clientIp } : ParsedRequest).Clean :=
  ⟨h.method_oneLine, h.host_oneLine, h.path_oneLine, h.fields⟩

/-- A request a client sent and the handler completed with the client's address. -/
def FromClient (rt : PyRuntime) (p : ParsedRequest) : Prop :=
  ∃ (requestId : Text) (raw : Bytes) (parsed : ParsedRequest) (client : IPv4),
    parseHttpRequest rt requestId raw = .ok (some parsed) ∧
      p = { parsed with clientIp := some client.text }

theorem FromClient.clean {rt : PyRuntime} (h : FromClient rt p) :
    p.Clean ∧ ∀ s, p.clientIp = some s → OneLine s := by
  obtain ⟨requestId, raw, parsed, client, hparse, rfl⟩ := h
  exact ⟨(clean_of_parse hparse).withClientIp _, oneLine_clientIp (some client)⟩

end Outbound

end Http
end NetworkProxy
