import Mathlib.Data.Rat.Init
import NetworkProxy.IniFile

/-!
# The configuration of the proxy

`config_loader.py`: the accessors of each subsystem over the parsed file, with their
fallbacks.

`load_document`: for a document of any layout, with a line for each option, the settings of the
process are those that it states, and the fallback of every other.
-/

namespace NetworkProxy
namespace Settings

open Py Ini

/-- What `float` returns, up to the sign of a zero. -/
inductive PyFloat
  | finite (value : ℚ)
  | infinite (negative : Bool)
  | nan
deriving DecidableEq

/-- The conversions of the interpreter that are not modelled further: `float` and
`str.upper`. -/
structure Conversions where
  rt : PyRuntime
  float : Text → Option PyFloat
  upper : Text → Text

/-- Why an accessor raises an exception: the value cannot be interpolated, or it is none of its
type. -/
inductive SettingError
  | interpolation (e : InterpolationError)
  | value

/-- Why no configuration is loaded. -/
inductive LoadError
  | ini (e : IniError)
  | setting (e : SettingError)

structure ServerConfig where
  host : Text
  port : ℤ
  maxConn : ℤ
  threadPoolSize : ℤ

structure LoggingConfig where
  logFile : Text
  maxSize : ℤ
  backupCount : ℤ
  logLevel : Text

structure CacheSettings where
  enabled : Bool
  maxEntries : ℤ
  maxObjectSize : ℤ
  cacheTtl : ℤ

structure RateLimitConfig where
  enabled : Bool
  capacity : ℤ
  refillRate : PyFloat

structure DashboardConfig where
  enabled : Bool
  port : ℤ

/-- `BOOLEAN_STATES`. -/
def booleanStates : List (Text × Bool) :=
  [(txt "1", true), (txt "yes", true), (txt "true", true), (txt "on", true), (txt "0", false),
    (txt "no", false), (txt "false", false), (txt "off", false)]

/-- `_convert_to_boolean`. -/
def convertToBoolean (rt : PyRuntime) (value : Text) : Option Bool :=
  (booleanStates.find? fun state => state.1 = lower rt value).map Prod.snd

section Accessors

variable (conv : Conversions) (config : Config)

/-- `_get_conv`. -/
def getConv {α : Type} (convert : Text → Option α) (section' option : Text) (fallback : α) :
    Except SettingError α :=
  match config.get (lower conv.rt) section' option with
  | .ok value =>
      match convert value with
      | some converted => .ok converted
      | none => .error .value
  | .error (.interpolation e) => .error (.interpolation e)
  | .error _ => .ok fallback

def getText (section' option fallback : Text) : Except SettingError Text :=
  getConv conv config some section' option fallback

def getint (section' option : Text) (fallback : ℤ) : Except SettingError ℤ :=
  getConv conv config (parseInt conv.rt) section' option fallback

def getfloat (section' option : Text) (fallback : PyFloat) : Except SettingError PyFloat :=
  getConv conv config conv.float section' option fallback

def getboolean (section' option : Text) (fallback : Bool) : Except SettingError Bool :=
  getConv conv config (convertToBoolean conv.rt) section' option fallback

/-- `get_server_config`. -/
def getServerConfig : Except SettingError ServerConfig := do
  let host ← getText conv config (txt "server") (txt "listen_host") (txt "0.0.0.0")
  let port ← getint conv config (txt "server") (txt "listen_port") 8888
  let maxConn ← getint conv config (txt "server") (txt "max_connections") 50
  let threadPoolSize ← getint conv config (txt "server") (txt "thread_pool_size") 20
  return ⟨host, port, maxConn, threadPoolSize⟩

/-- `get_logging_config`. -/
def getLoggingConfig : Except SettingError LoggingConfig := do
  let logFile ← getText conv config (txt "logging") (txt "log_file") (txt "logs/proxy.log")
  let maxSize ← getint conv config (txt "logging") (txt "max_log_size") 1048576
  let backupCount ← getint conv config (txt "logging") (txt "backup_count") 5
  let logLevel ← getText conv config (txt "logging") (txt "log_level") (txt "INFO")
  return ⟨logFile, maxSize, backupCount, conv.upper logLevel⟩

/-- `get_cache_config`. -/
def getCacheConfig : Except SettingError CacheSettings := do
  let enabled ← getboolean conv config (txt "cache") (txt "enabled") true
  let maxEntries ← getint conv config (txt "cache") (txt "max_entries") 100
  let maxObjectSize ← getint conv config (txt "cache") (txt "max_object_size") (512 * 1024)
  let cacheTtl ← getint conv config (txt "cache") (txt "cache_ttl") 300
  return ⟨enabled, maxEntries, maxObjectSize, cacheTtl⟩

/-- `get_rate_limit_config`. -/
def getRateLimitConfig : Except SettingError RateLimitConfig := do
  let enabled ← getboolean conv config (txt "rate_limit") (txt "enabled") true
  let capacity ← getint conv config (txt "rate_limit") (txt "capacity") 20
  let refillRate ← getfloat conv config (txt "rate_limit") (txt "refill_rate") (.finite 2)
  return ⟨enabled, capacity, refillRate⟩

/-- `get_dashboard_config`. -/
def getDashboardConfig : Except SettingError DashboardConfig := do
  let enabled ← getboolean conv config (txt "dashboard") (txt "enabled") true
  let port ← getint conv config (txt "dashboard") (txt "port") 8889
  return ⟨enabled, port⟩

end Accessors

/-- What the accessors return to the modules of the proxy. -/
structure ProxySettings where
  server : ServerConfig
  logging : LoggingConfig
  cache : CacheSettings
  rateLimit : RateLimitConfig
  dashboard : DashboardConfig

/-- The accessors over a parsed file. -/
def accessAll (conv : Conversions) (config : Config) : Except SettingError ProxySettings := do
  let server ← getServerConfig conv config
  let logging ← getLoggingConfig conv config
  let cache ← getCacheConfig conv config
  let rateLimit ← getRateLimitConfig conv config
  let dashboard ← getDashboardConfig conv config
  return ⟨server, logging, cache, rateLimit, dashboard⟩

/-- The configuration that the proxy starts with, from the file; `none` is a missing file. -/
def load (conv : Conversions) (file : Option Text) : Except LoadError ProxySettings :=
  match readIni (lower conv.rt) file with
  | .error e => .error (.ini e)
  | .ok config => (accessAll conv config).mapError .setting

/-! ## What a document states -/

/-- The setting that a document makes: the conversion of the text it gives, else the
fallback. -/
def Stated {α : Type} (convert : Text → Option α) (fallback : α) : Option Text → α → Prop
  | none, value => value = fallback
  | some text, value => convert text = some value

instance {α : Type} [DecidableEq α] (convert : Text → Option α) (fallback : α) :
    ∀ (said : Option Text) (value : α), Decidable (Stated convert fallback said value)
  | none, value => inferInstanceAs (Decidable (value = fallback))
  | some text, value => inferInstanceAs (Decidable (convert text = some value))

/-- The settings are those that somebody `said`. -/
structure StatedBy (conv : Conversions) (said : Text → Text → Option Text) (s : ProxySettings) :
    Prop where
  host : Stated some (txt "0.0.0.0") (said (txt "server") (txt "listen_host")) s.server.host
  port : Stated (parseInt conv.rt) 8888 (said (txt "server") (txt "listen_port")) s.server.port
  maxConn : Stated (parseInt conv.rt) 50 (said (txt "server") (txt "max_connections"))
    s.server.maxConn
  threadPoolSize : Stated (parseInt conv.rt) 20 (said (txt "server") (txt "thread_pool_size"))
    s.server.threadPoolSize
  logFile : Stated some (txt "logs/proxy.log") (said (txt "logging") (txt "log_file"))
    s.logging.logFile
  maxSize : Stated (parseInt conv.rt) 1048576 (said (txt "logging") (txt "max_log_size"))
    s.logging.maxSize
  backupCount : Stated (parseInt conv.rt) 5 (said (txt "logging") (txt "backup_count"))
    s.logging.backupCount
  logLevel : Stated (fun text => some (conv.upper text)) (conv.upper (txt "INFO"))
    (said (txt "logging") (txt "log_level")) s.logging.logLevel
  cacheEnabled : Stated (convertToBoolean conv.rt) true (said (txt "cache") (txt "enabled"))
    s.cache.enabled
  maxEntries : Stated (parseInt conv.rt) 100 (said (txt "cache") (txt "max_entries"))
    s.cache.maxEntries
  maxObjectSize : Stated (parseInt conv.rt) 524288 (said (txt "cache") (txt "max_object_size"))
    s.cache.maxObjectSize
  cacheTtl : Stated (parseInt conv.rt) 300 (said (txt "cache") (txt "cache_ttl"))
    s.cache.cacheTtl
  limitEnabled : Stated (convertToBoolean conv.rt) true (said (txt "rate_limit") (txt "enabled"))
    s.rateLimit.enabled
  capacity : Stated (parseInt conv.rt) 20 (said (txt "rate_limit") (txt "capacity"))
    s.rateLimit.capacity
  refillRate : Stated conv.float (.finite 2) (said (txt "rate_limit") (txt "refill_rate"))
    s.rateLimit.refillRate
  dashboardEnabled : Stated (convertToBoolean conv.rt) true
    (said (txt "dashboard") (txt "enabled")) s.dashboard.enabled
  dashboardPort : Stated (parseInt conv.rt) 8889 (said (txt "dashboard") (txt "port"))
    s.dashboard.port

section Load

variable {conv : Conversions} {config : Config}

/-- An accessor, for a value that is written escaped. -/
theorem getConv_eq_ok {α : Type} {convert : Text → Option α} {section' option : Text}
    {fallback value : α} {said : Option Text}
    (hsaid : config.raw? (lower conv.rt) section' option = said.map escape) :
    getConv conv config convert section' option fallback = .ok value ↔
      Stated convert fallback said value := by
  obtain ⟨hsome, hnone⟩ := get_of_raw? (lower conv.rt) config section' option
  cases said with
  | none =>
      rw [getConv]
      rcases hnone hsaid with hget | hget
      · rw [hget]
        simp [Stated, eq_comm]
      · rw [hget]
        simp [Stated, eq_comm]
  | some text =>
      rw [getConv, hsome text hsaid, Stated]
      dsimp only
      cases convert text with
      | none => simp
      | some converted => simp

theorem bind_eq_ok {ε α β : Type} {x : Except ε α} {f : α → Except ε β} {b : β} :
    x >>= f = .ok b ↔ ∃ a, x = .ok a ∧ f a = .ok b := by
  cases x with
  | error e => simp [bind, Except.bind]
  | ok a => simp [bind, Except.bind]

theorem pure_eq_ok {ε α : Type} {a b : α} : (pure a : Except ε α) = .ok b ↔ a = b := by
  simp [pure, Except.pure]

theorem mapError_eq_ok {ε ε' α : Type} {x : Except ε α} {f : ε → ε'} {a : α} :
    x.mapError f = .ok a ↔ x = .ok a := by
  cases x <;> simp [Except.mapError]

section Said

variable {said : Text → Text → Option Text}
  (hsaid : ∀ section' option,
    config.raw? (lower conv.rt) section' option = (said section' option).map escape)

include hsaid

theorem getServerConfig_eq_ok {s : ServerConfig} : getServerConfig conv config = .ok s ↔
    Stated some (txt "0.0.0.0") (said (txt "server") (txt "listen_host")) s.host ∧
    Stated (parseInt conv.rt) 8888 (said (txt "server") (txt "listen_port")) s.port ∧
    Stated (parseInt conv.rt) 50 (said (txt "server") (txt "max_connections")) s.maxConn ∧
    Stated (parseInt conv.rt) 20 (said (txt "server") (txt "thread_pool_size"))
      s.threadPoolSize := by
  simp only [getServerConfig, getText, getint, bind_eq_ok, getConv_eq_ok (hsaid _ _), pure_eq_ok]
  constructor
  · rintro ⟨host, hhost, port, hport, maxConn, hmaxConn, size, hsize, rfl⟩
    exact ⟨hhost, hport, hmaxConn, hsize⟩
  · rintro ⟨hhost, hport, hmaxConn, hsize⟩
    exact ⟨_, hhost, _, hport, _, hmaxConn, _, hsize, rfl⟩

theorem getLoggingConfig_eq_ok {s : LoggingConfig} : getLoggingConfig conv config = .ok s ↔
    Stated some (txt "logs/proxy.log") (said (txt "logging") (txt "log_file")) s.logFile ∧
    Stated (parseInt conv.rt) 1048576 (said (txt "logging") (txt "max_log_size")) s.maxSize ∧
    Stated (parseInt conv.rt) 5 (said (txt "logging") (txt "backup_count")) s.backupCount ∧
    Stated (fun text => some (conv.upper text)) (conv.upper (txt "INFO"))
      (said (txt "logging") (txt "log_level")) s.logLevel := by
  have hupper : (∃ level, Stated some (txt "INFO") (said (txt "logging") (txt "log_level")) level ∧
      conv.upper level = s.logLevel) ↔ Stated (fun text => some (conv.upper text))
        (conv.upper (txt "INFO")) (said (txt "logging") (txt "log_level")) s.logLevel := by
    cases said (txt "logging") (txt "log_level") with
    | none => simp [Stated, eq_comm]
    | some text => simp [Stated]
  simp only [getLoggingConfig, getText, getint, bind_eq_ok, getConv_eq_ok (hsaid _ _), pure_eq_ok]
  constructor
  · rintro ⟨file, hfile, size, hsize, count, hcount, level, hlevel, rfl⟩
    exact ⟨hfile, hsize, hcount, hupper.mp ⟨level, hlevel, rfl⟩⟩
  · rintro ⟨hfile, hsize, hcount, hlevel⟩
    obtain ⟨level, hlevel, he⟩ := hupper.mpr hlevel
    refine ⟨_, hfile, _, hsize, _, hcount, level, hlevel, ?_⟩
    rw [he]

theorem getCacheConfig_eq_ok {s : CacheSettings} : getCacheConfig conv config = .ok s ↔
    Stated (convertToBoolean conv.rt) true (said (txt "cache") (txt "enabled")) s.enabled ∧
    Stated (parseInt conv.rt) 100 (said (txt "cache") (txt "max_entries")) s.maxEntries ∧
    Stated (parseInt conv.rt) 524288 (said (txt "cache") (txt "max_object_size"))
      s.maxObjectSize ∧
    Stated (parseInt conv.rt) 300 (said (txt "cache") (txt "cache_ttl")) s.cacheTtl := by
  simp only [getCacheConfig, getboolean, getint, bind_eq_ok, getConv_eq_ok (hsaid _ _), pure_eq_ok]
  constructor
  · rintro ⟨enabled, henabled, entries, hentries, size, hsize, ttl, httl, rfl⟩
    exact ⟨henabled, hentries, hsize, httl⟩
  · rintro ⟨henabled, hentries, hsize, httl⟩
    exact ⟨_, henabled, _, hentries, _, hsize, _, httl, rfl⟩

theorem getRateLimitConfig_eq_ok {s : RateLimitConfig} : getRateLimitConfig conv config = .ok s ↔
    Stated (convertToBoolean conv.rt) true (said (txt "rate_limit") (txt "enabled")) s.enabled ∧
    Stated (parseInt conv.rt) 20 (said (txt "rate_limit") (txt "capacity")) s.capacity ∧
    Stated conv.float (.finite 2) (said (txt "rate_limit") (txt "refill_rate"))
      s.refillRate := by
  simp only [getRateLimitConfig, getboolean, getint, getfloat, bind_eq_ok,
    getConv_eq_ok (hsaid _ _), pure_eq_ok]
  constructor
  · rintro ⟨enabled, henabled, capacity, hcapacity, rate, hrate, rfl⟩
    exact ⟨henabled, hcapacity, hrate⟩
  · rintro ⟨henabled, hcapacity, hrate⟩
    exact ⟨_, henabled, _, hcapacity, _, hrate, rfl⟩

theorem getDashboardConfig_eq_ok {s : DashboardConfig} : getDashboardConfig conv config = .ok s ↔
    Stated (convertToBoolean conv.rt) true (said (txt "dashboard") (txt "enabled")) s.enabled ∧
    Stated (parseInt conv.rt) 8889 (said (txt "dashboard") (txt "port")) s.port := by
  simp only [getDashboardConfig, getboolean, getint, bind_eq_ok, getConv_eq_ok (hsaid _ _),
    pure_eq_ok]
  constructor
  · rintro ⟨enabled, henabled, port, hport, rfl⟩
    exact ⟨henabled, hport⟩
  · rintro ⟨henabled, hport⟩
    exact ⟨_, henabled, _, hport, rfl⟩

/-- The accessors over values that are written escaped. -/
theorem accessAll_eq_ok {s : ProxySettings} :
    accessAll conv config = .ok s ↔ StatedBy conv said s := by
  simp only [accessAll, bind_eq_ok, getServerConfig_eq_ok hsaid, getLoggingConfig_eq_ok hsaid,
    getCacheConfig_eq_ok hsaid, getRateLimitConfig_eq_ok hsaid, getDashboardConfig_eq_ok hsaid,
    pure_eq_ok]
  constructor
  · rintro ⟨server, ⟨h₁, h₂, h₃, h₄⟩, logging, ⟨h₅, h₆, h₇, h₈⟩, cache, ⟨h₉, h₁₀, h₁₁, h₁₂⟩,
      limit, ⟨h₁₃, h₁₄, h₁₅⟩, dashboard, ⟨h₁₆, h₁₇⟩, rfl⟩
    exact ⟨h₁, h₂, h₃, h₄, h₅, h₆, h₇, h₈, h₉, h₁₀, h₁₁, h₁₂, h₁₃, h₁₄, h₁₅, h₁₆, h₁₇⟩
  · intro h
    exact ⟨_, ⟨h.host, h.port, h.maxConn, h.threadPoolSize⟩,
      _, ⟨h.logFile, h.maxSize, h.backupCount, h.logLevel⟩,
      _, ⟨h.cacheEnabled, h.maxEntries, h.maxObjectSize, h.cacheTtl⟩,
      _, ⟨h.limitEnabled, h.capacity, h.refillRate⟩, _, ⟨h.dashboardEnabled, h.dashboardPort⟩,
      rfl⟩

end Said

/-- **The configuration is what the file states.**  For a document of any layout, with its
sections and options in any order and spelled in any case, each option on a line that is not
indented, whose values are written escaped:
the settings are loaded exactly if they are the ones that the document states, with the
fallback for each option that it leaves out. -/
theorem load_document {d : Document} (h : d.WellFormed (lower conv.rt))
    (said : Text → Text → Option Text)
    (hsaid : ∀ section' option,
      d.value? (lower conv.rt) section' option = (said section' option).map escape)
    (s : ProxySettings) : load conv (some d.text) = .ok s ↔ StatedBy conv said s := by
  have hraw : ∀ section' option, (d.config (lower conv.rt)).raw? (lower conv.rt) section' option =
      (said section' option).map escape := by
    intro section' option
    rw [Document.raw?_config h]
    exact hsaid section' option
  rw [load, readIni_document h, ← accessAll_eq_ok hraw]
  exact mapError_eq_ok

end Load

/-- A file with a comment, an option in capitals, and a per cent sign. -/
def smallConfig : Document where
  preamble := [.comment [] '#' (txt " Proxy"), .blank []]
  sections :=
    [⟨txt "server", [.option ⟨txt "Listen_Port", [], ':', txt " ", txt "9000", []⟩, .blank []]⟩,
      ⟨txt "logging",
        [.option ⟨txt "log_file", txt " ", '=', txt " ", txt "100%%.log", txt "  "⟩]⟩,
      ⟨txt "cache", [.option ⟨txt "enabled", [], '=', [], txt "Off", []⟩]⟩]

/-- What it says. -/
def smallSaid (section' option : Text) : Option Text :=
  (smallConfig.value? (lower asciiRuntime) section' option).map fun value =>
    if value = txt "100%%.log" then txt "100%.log" else value

/-- No digits after the point. -/
def plainConversions : Conversions where
  rt := asciiRuntime
  float := fun text => (parseInt asciiRuntime text).map fun n => .finite n
  upper := fun text => text.map Char.toUpper

def smallSettings : ProxySettings where
  server := ⟨txt "0.0.0.0", 9000, 50, 20⟩
  logging := ⟨txt "100%.log", 1048576, 5, txt "INFO"⟩
  cache := ⟨false, 100, 524288, 300⟩
  rateLimit := ⟨true, 20, .finite 2⟩
  dashboard := ⟨true, 8889⟩

theorem wellFormed_smallConfig : smallConfig.WellFormed (lower asciiRuntime) where
  preamble := by
    intro l hl
    simp only [smallConfig, List.mem_cons, List.not_mem_nil, or_false] at hl
    rcases hl with rfl | rfl
    · exact ⟨⟨by simp, Or.inl rfl⟩, rfl⟩
    · exact ⟨by simp [DocLine.Plain], rfl⟩
  plain := by
    intro s hs l hl
    simp only [smallConfig, List.mem_cons, List.not_mem_nil, or_false] at hs
    rcases hs with rfl | rfl | rfl
    all_goals
      simp only [List.mem_cons, List.not_mem_nil, or_false] at hl
    · rcases hl with rfl | rfl
      · exact OptionLine.plain_of_isPlain (by decide +kernel)
      · simp [DocLine.Plain]
    · obtain rfl := hl
      exact OptionLine.plain_of_isPlain (by decide +kernel)
    · obtain rfl := hl
      exact OptionLine.plain_of_isPlain (by decide +kernel)
  names := by
    intro s hs
    simp only [smallConfig, List.mem_cons, List.not_mem_nil, or_false] at hs
    rcases hs with rfl | rfl | rfl
    · exact List.cons_ne_nil _ _
    · exact List.cons_ne_nil _ _
    · exact List.cons_ne_nil _ _
  sections := by decide +kernel
  options := by
    intro s hs
    simp only [smallConfig, List.mem_cons, List.not_mem_nil, or_false] at hs
    rcases hs with rfl | rfl | rfl
    · exact List.nodup_singleton _
    · exact List.nodup_singleton _
    · exact List.nodup_singleton _
  oneLine := by
    have hlines : smallConfig.lines.all (fun l => decide ('\n' ∉ l ∧ '\r' ∉ l)) = true := by
      decide +kernel
    exact fun l hl => of_decide_eq_true (List.all_eq_true.mp hlines l hl)

theorem load_document_small :
    load plainConversions (some smallConfig.text) = .ok smallSettings := by
  have hsaid : ∀ section' option, smallConfig.value? (lower plainConversions.rt) section' option =
      (smallSaid section' option).map escape := by
    intro section' option
    rw [smallSaid]
    cases hvalue : smallConfig.value? (lower asciiRuntime) section' option with
    | none => exact hvalue
    | some value =>
        have hkept : smallConfig.sections.all (fun s => s.options.all fun o => decide
            (escape (if o.value = txt "100%%.log" then txt "100%.log" else o.value) =
              o.value)) = true := by decide +kernel
        obtain ⟨s, hs, o, ho, rfl⟩ := Document.mem_of_value? hvalue
        have hone := List.all_eq_true.mp (List.all_eq_true.mp hkept s hs) o ho
        rw [Option.map_some, Option.map_some, of_decide_eq_true hone]
        exact hvalue
  refine (load_document wellFormed_smallConfig smallSaid hsaid smallSettings).mpr ?_
  constructor <;> decide +kernel

end Settings
end NetworkProxy
