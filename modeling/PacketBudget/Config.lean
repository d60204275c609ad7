import PacketBudget.Policy

/-!
The configuration of a host: eight settings, each with a group, a key and a default. Main
statements: assigning a setting gives it the value and changes no other, and a configuration is
known by its eight settings.
-/

namespace PacketBudget

structure Config where
  serviceName : String := "servicenet"
  /-- Signed, so that a negative limit reaches construction and is refused there. -/
  memoryLimit : Int64 := 67108864
  overhead : UInt64 := 4096
  /-- Zero for no cap. -/
  packetCap : UInt64 := 8388608
  bindAddress : String := "0.0.0.0:7400"
  maxFrame : UInt64 := 16777216
  /-- In milliseconds; zero for no timeout. -/
  readTimeout : UInt64 := 30000
  /-- In milliseconds; zero for no reports. -/
  reportInterval : UInt64 := 0
  deriving DecidableEq, Repr

/-- The names of the settings. -/
inductive Setting
  | serviceName
  | memoryLimit
  | overhead
  | packetCap
  | bindAddress
  | maxFrame
  | readTimeout
  | reportInterval
  deriving DecidableEq, Repr

/-- A setting with a value for it. -/
inductive Assignment
  | serviceName (v : String)
  | memoryLimit (v : Int64)
  | overhead (v : UInt64)
  | packetCap (v : UInt64)
  | bindAddress (v : String)
  | maxFrame (v : UInt64)
  | readTimeout (v : UInt64)
  | reportInterval (v : UInt64)
  deriving DecidableEq, Repr

namespace Setting

def all : List Setting :=
  [serviceName, memoryLimit, overhead, packetCap, bindAddress, maxFrame, readTimeout,
    reportInterval]

/-- The header under which the setting stands. -/
def group : Setting → String
  | serviceName | memoryLimit | overhead | packetCap => "service"
  | bindAddress | maxFrame | readTimeout => "net"
  | reportInterval => "metrics"

def key : Setting → String
  | serviceName => "name"
  | memoryLimit => "packet_mem_limit"
  | overhead => "connection_overhead_bytes"
  | packetCap => "per_connection_packet_bytes"
  | bindAddress => "bind_addr"
  | maxFrame => "max_frame_bytes"
  | readTimeout => "read_timeout_ms"
  | reportInterval => "report_interval_ms"

/-- The setting of that group and key. -/
def find? (group key : List Char) : Option Setting :=
  all.find? fun s => s.group.toList = group ∧ s.key.toList = key

theorem mem_all (s : Setting) : s ∈ all := by cases s <;> decide

theorem find?_group_key (s : Setting) : find? s.group.toList s.key.toList = some s := by
  cases s <;> decide

end Setting

def Assignment.setting : Assignment → Setting
  | .serviceName _ => .serviceName
  | .memoryLimit _ => .memoryLimit
  | .overhead _ => .overhead
  | .packetCap _ => .packetCap
  | .bindAddress _ => .bindAddress
  | .maxFrame _ => .maxFrame
  | .readTimeout _ => .readTimeout
  | .reportInterval _ => .reportInterval

namespace Config

def assign (c : Config) : Assignment → Config
  | .serviceName v => { c with serviceName := v }
  | .memoryLimit v => { c with memoryLimit := v }
  | .overhead v => { c with overhead := v }
  | .packetCap v => { c with packetCap := v }
  | .bindAddress v => { c with bindAddress := v }
  | .maxFrame v => { c with maxFrame := v }
  | .readTimeout v => { c with readTimeout := v }
  | .reportInterval v => { c with reportInterval := v }

/-- The value a setting has. -/
def get (c : Config) : Setting → Assignment
  | .serviceName => .serviceName c.serviceName
  | .memoryLimit => .memoryLimit c.memoryLimit
  | .overhead => .overhead c.overhead
  | .packetCap => .packetCap c.packetCap
  | .bindAddress => .bindAddress c.bindAddress
  | .maxFrame => .maxFrame c.maxFrame
  | .readTimeout => .readTimeout c.readTimeout
  | .reportInterval => .reportInterval c.reportInterval

/-- What the host hands to the service. -/
def hostContext (c : Config) : HostContext :=
  ⟨c.serviceName, { overhead := c.overhead.toNat, cap := c.packetCap.toNat }⟩

theorem setting_get (c : Config) (s : Setting) : (c.get s).setting = s := by cases s <;> rfl

theorem get_assign (c : Config) (a : Assignment) (s : Setting) :
    (c.assign a).get s = if s = a.setting then a else c.get s := by
  cases a <;> cases s <;> rfl

theorem ext_get {c d : Config} (h : ∀ s, c.get s = d.get s) : c = d := by
  have h₁ := Assignment.serviceName.inj (h .serviceName)
  have h₂ := Assignment.memoryLimit.inj (h .memoryLimit)
  have h₃ := Assignment.overhead.inj (h .overhead)
  have h₄ := Assignment.packetCap.inj (h .packetCap)
  have h₅ := Assignment.bindAddress.inj (h .bindAddress)
  have h₆ := Assignment.maxFrame.inj (h .maxFrame)
  have h₇ := Assignment.readTimeout.inj (h .readTimeout)
  have h₈ := Assignment.reportInterval.inj (h .reportInterval)
  cases c
  cases d
  simp_all

end Config

end PacketBudget
