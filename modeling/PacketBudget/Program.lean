import PacketBudget.Config.Reader
import PacketBudget.Counters.Exposition
import PacketBudget.Host
import PacketBudget.Host.Address.Reader

/-!
The program around a host: it finds its configuration, constructs and initializes the service, has
the host listen, and reports when it is over. Reading files, printing and the network are left to
its caller.
-/

namespace PacketBudget.Program

def defaultPath : String := "servicenet.conf"

/-- What the log shows unless the caller says otherwise. -/
def defaultFilter : String := "servicenet=debug"

def wantsHelp (args : List String) : Bool := args.head? = some "-h" || args.head? = some "--help"

/-- The file that holds the configuration. -/
def configPath (args : List String) : String := args.head?.getD defaultPath

def help : String := String.join (List.map (· ++ "\n") [
  "servicenet v0.1.0",
  "Echo host for a network service with a bounded packet memory budget",
  "",
  "USAGE:",
  "    servicenet [OPTIONS] [CONFIG_FILE]",
  "",
  "OPTIONS:",
  "    -h, --help       Show this help message",
  "",
  "ARGUMENTS:",
  "    [CONFIG_FILE]    Path to configuration file (default: servicenet.conf)",
  "",
  "CONFIGURATION:",
  "The configuration file uses a simple key=value format with sections.",
  "",
  "[service] - Packet memory budget and admission policy",
  "  name = \"servicenet\"                        # Service name used in logs",
  "  packet_mem_limit = 67108864                # Packet memory ceiling (64MB, >= 0)",
  "  connection_overhead_bytes = 4096           # Bytes reserved per admitted connection",
  "  per_connection_packet_bytes = 8388608      # Per-connection packet cap (8MB, 0 = unlimited)",
  "",
  "[net] - Listener configuration",
  "  bind_addr = \"0.0.0.0:7400\"                 # Listen address",
  "  max_frame_bytes = 16777216                 # Max frame payload (16MB)",
  "  read_timeout_ms = 30000                    # Idle read timeout (0 = none)",
  "",
  "[metrics] - Metrics reporting",
  "  report_interval_ms = 0                     # Log metrics periodically (0 = disabled)",
  "",
  "EXAMPLES:",
  "    servicenet                                # Use servicenet.conf or defaults",
  "    servicenet gate.conf                      # Use custom config file"])

/-- What a finished program has printed, and its exit code. -/
structure Report where
  exitCode : Nat := 0
  stdout : String := ""
  /-- The lines on standard error that are not of the log. -/
  stderr : List String := []
  log : List LogLine := []
  deriving Repr

/-- A program whose host has been set up. -/
structure Running where
  filter : Log.Filter
  /-- What went to the log before there was a service. -/
  early : List Notice
  config : Config
  host : Host
  /-- Why the host does not listen, if it does not. -/
  failure : Option AddressFault

/-- The lines about parts of a filter that say nothing. -/
def warnings (f : Log.Filter) : List String := f.faults.map fun e => s!"warning: {e}, ignoring it"

/-- The configuration, and what is logged about where it comes from. -/
def findConfig (args : List String) (contents : FileContents) :
    Except LoadFault (Config × List Notice) :=
  match Config.load contents, args with
  | .error .missing, [] => .ok ({}, [.program .info (defaultPath ++ " not found; using defaults")])
  | .error f, _ => .error f
  | .ok c, _ => .ok (c, [])

def metrics (s : Service) : String := Exposition.render s.counters s.identity s.used s.ceiling

/-- Sets the host up. The service has been taken up already when the address is looked at. -/
def setUp (c : Config) (h : Handler) (free : Nat) (s : Service) : Host × Option AddressFault :=
  let s := s.note (.program .info "servicenet started; press Ctrl-C to stop.")
  let s := if c.reportInterval = 0 then s else s.note (.program .info ("metrics:\n" ++ metrics s))
  match Address.toListen c.bindAddress with
  | .ok a => (.listen c h s (a.text free), none)
  | .error f => ({ service := s, limits := c.limits, handler := h }, some f)

/-- Starts the program on its arguments, the contents of its configuration file and the text of
its log filter. Where the endpoint is left to the
machine it is `free`. -/
def start (args : List String) (contents : FileContents) (filter : Option String) (free : Nat) :
    Except Report Running :=
  if wantsHelp args then .error { stdout := help }
  else
    let filter := Log.Filter.read (filter.getD defaultFilter)
    let failed (message : String) : Except Report Running :=
      .error { exitCode := 1, stderr := warnings filter ++ [message] }
    match findConfig args contents with
    | .error f => failed ("failed to read config " ++ configPath args ++ ": " ++ f.toIoError.message)
    | .ok (config, early) =>
      match Service.create config.memoryLimit {} with
      | .error f => failed ("failed to construct service: " ++ f.message)
      | .ok (s, _) =>
        match s.init config.hostContext with
        | (.error f, _) => failed ("failed to initialize service: " ++ f.message)
        | (.ok (), s) =>
          let (host, failure) := setUp config .echo free s
          .ok ⟨filter, early, config, host, failure⟩

/-- All that has gone to the log and passes the filter. -/
def Running.log (r : Running) : List LogLine :=
  ((r.early ++ r.host.service.journal.reverse).map Notice.line).filter r.filter.passes

/-- The last words: why the program stops, and the final metrics. -/
def Running.stop (r : Running) : Running :=
  let s := r.host.service
  let s := s.note (match r.failure with
    | some f => .program .error ("server stopped: " ++ f.toIoError.message)
    | none => .program .info "shutting down...")
  let s := s.note (.program .info
    (s!"final metrics ({s.active} connections open, {s.used} bytes in use):\n" ++ metrics s))
  { r with host := { r.host with service := s.note (.program .info "Goodbye.") } }

/-- The report of a program that has stopped. -/
def Running.report (r : Running) : Report :=
  { stderr := warnings r.filter, log := r.stop.log }

end PacketBudget.Program
